import ConquerD.Client.Protocol
import ConquerD.Supernode.Envelope

/-!
# Client and supernode: what a signature covers

Both programs read a message from the same JSON text and each rebuilds the bytes
its signature covers. They agree where the text writes its numbers the way they
are written again; the file says when, and when a message keeps its signed bytes
after it was written and read once more.
-/

namespace ConquerD.Interop

open Lib.Encoding Lib.JsonText Wire
open ConquerD.Client.Protocol (fieldNames structFields knownOnce payloadDepth)
open ConquerD.Supernode.Protocol (numberKey maxDepth messageTypeNames)

variable {S : FloatSyntax FiniteF64} {J : JsonSyntax}

/-! ## What the client has read -/

/-- The message is what the fields of a struct hold. -/
structure ClientReads (S : FloatSyntax FiniteF64) (now : FiniteF64) (fields : List (String × Doc))
    (m : Client.Protocol.SignalingMessage) : Prop where
  msgType : ∃ t, fields.lookup "type" = some t ∧ variantName t = some m.msgType.asWireStr
  sender : fields.lookup "sender" = some (.str m.sender)
  payload : Client.Protocol.readPayload S (fields.lookup "payload") = some m.payload
  timestamp : ∃ x, Client.Protocol.readTimestamp S now (fields.lookup "timestamp") = some x ∧
    m.timestamp = x.val
  target : Client.Protocol.readOptionalStr (fields.lookup "target") = some m.target
  signature : Client.Protocol.readOptionalStr (fields.lookup "signature") = some m.signature
  protocolVersion : Client.Protocol.readVersion (fields.lookup "v") = some m.protocolVersion

theorem valueStr?_eq_some {ν : Type} {v : Value ν} {s : String} :
    valueStr? v = some s ↔ v = .str s := by
  cases v <;> simp [valueStr?]

theorem clientReads_of_fromFields {now : FiniteF64} {fields : List (String × Doc)}
    {m : Client.Protocol.SignalingMessage}
    (h : Client.Protocol.SignalingMessage.fromFields S now fields = some m) :
    ClientReads S now fields m := by
  simp only [Client.Protocol.SignalingMessage.fromFields, Option.bind_eq_bind,
    Option.bind_eq_some_iff, Option.some.injEq] at h
  obtain ⟨t, ⟨name, ⟨d, htype, hname⟩, ht⟩, sender, ⟨e, hsender, hstr⟩, payload, hpayload, x,
    htimestamp, target, htarget, signature, hsignature, v, hv, rfl⟩ := h
  have hwire : t.asWireStr = name := Client.Protocol.MessageType.ofName_eq_some_iff.mp ht
  rw [valueStr?_eq_some] at hstr
  exact ⟨⟨d, htype, hname.trans (congrArg some hwire.symm)⟩, hsender.trans (congrArg some hstr),
    hpayload, ⟨x, htimestamp, rfl⟩, htarget, hsignature, hv⟩

theorem fromFields_of_clientReads {now : FiniteF64} {fields : List (String × Doc)}
    {m : Client.Protocol.SignalingMessage} (h : ClientReads S now fields m) :
    Client.Protocol.SignalingMessage.fromFields S now fields = some m := by
  obtain ⟨t, htype, hname⟩ := h.msgType
  obtain ⟨x, htimestamp, hx⟩ := h.timestamp
  have hof := Client.Protocol.MessageType.ofName_eq_some_iff.mpr (Eq.refl m.msgType.asWireStr)
  simp only [Client.Protocol.SignalingMessage.fromFields, Option.bind_eq_bind, htype, hname,
    Option.bind_some, hof, h.sender, valueStr?, h.payload, htimestamp, h.target, h.signature,
    h.protocolVersion, ← hx]

theorem client_fromDoc_iff {now : FiniteF64} {d : Doc} {m : Client.Protocol.SignalingMessage} :
    Client.Protocol.SignalingMessage.fromDoc S now d = some m ↔
      ∃ fields, structFields d = some fields ∧ knownOnce fields = true ∧
        ClientReads S now fields m := by
  rw [Client.Protocol.SignalingMessage.fromDoc, Option.bind_eq_some_iff]
  constructor
  · rintro ⟨fields, hfields, h⟩
    split at h
    · next honce => exact ⟨fields, hfields, honce, clientReads_of_fromFields h⟩
    · cases h
  · rintro ⟨fields, hfields, honce, h⟩
    exact ⟨fields, hfields, by rw [if_pos honce, fromFields_of_clientReads h]⟩

theorem readPayload_some_iff {d : Doc} {payload : List (String × SerdeValue)} :
    Client.Protocol.readPayload S (some d) = some payload ↔
      readValue (Number.ofLiteral S) (payloadDepth + 1) d = some (.obj payload) := by
  cases d with
  | obj fields =>
    rw [Client.Protocol.readPayload, readValue]
    cases readFields (readValue (Number.ofLiteral S) payloadDepth) fields <;> simp
  | num l =>
    rw [readValue_num]
    cases Number.ofLiteral S l <;> simp [Client.Protocol.readPayload]
  | arr items =>
    rw [readValue]
    cases items.mapM (readValue (Number.ofLiteral S) payloadDepth) <;>
      simp [Client.Protocol.readPayload]
  | _ => simp [Client.Protocol.readPayload]

theorem ClientReads.payload_sorted {now : FiniteF64} {fields : List (String × Doc)}
    {m : Client.Protocol.SignalingMessage} (h : ClientReads S now fields m) :
    (Value.obj m.payload).Sorted ∧ (Value.obj m.payload).Fits (payloadDepth + 1) := by
  have hread := h.payload
  cases hlookup : fields.lookup "payload" with
  | none =>
    rw [hlookup] at hread
    have hnil : [] = m.payload := Option.some.inj hread
    rw [← hnil]
    exact ⟨.obj List.Pairwise.nil (nofun), .obj (nofun)⟩
  | some d =>
    rw [hlookup, readPayload_some_iff] at hread
    exact ⟨sorted_of_readValue hread, fits_of_readValue hread⟩

/-! ## What the supernode has read -/

theorem supernode_fromDoc_iff {d : Doc} {n : Supernode.Protocol.SignalingMessage} :
    Supernode.Protocol.SignalingMessage.fromDoc S J d = some n ↔
      ∃ fields ws, d = .obj fields ∧ ¬NumberFirst numberKey fields ∧
        mapFields (readRaw J numberKey (payloadDepth + 1)) fields = mapFields some ws ∧
        Supernode.Protocol.SignalingMessage.fromFields S (sortFields ws) = some n := by
  rw [Supernode.Protocol.SignalingMessage.fromDoc, Option.bind_eq_some_iff]
  constructor
  · rintro ⟨map, hread, h⟩
    obtain ⟨w, hw, hmap⟩ := Option.bind_eq_some_iff.mp hread
    cases d with
    | obj fields =>
      rcases readRaw_obj hw with ⟨l, -, -, rfl⟩ | ⟨r, ws, hfirst, hr, hfields, rfl⟩
      · cases hmap
      · cases hr
        cases hmap
        exact ⟨fields, ws, rfl, hfirst, hfields, h⟩
    | arr items =>
      obtain ⟨r, ws, -, -, rfl⟩ := readRaw_arr hw
      cases hmap
    | null => rw [readRaw_null] at hw; cases hw; cases hmap
    | bool b => rw [readRaw_bool] at hw; cases hw; cases hmap
    | num l => rw [readRaw_num] at hw; cases hw; cases hmap
    | str s => rw [readRaw_str] at hw; cases hw; cases hmap
  · rintro ⟨fields, ws, rfl, hfirst, hfields, h⟩
    refine ⟨sortFields ws, ?_, h⟩
    have hread := readFields_eq_some_iff.mpr hfields
    rw [payloadDepth] at hread
    rw [maxDepth, readRaw, if_neg hfirst, hread]
    rfl

theorem lookup_of_readFields {g : Doc → Option Doc} {fields ws : List (String × Doc)}
    (h : mapFields g fields = mapFields some ws) (k : String) :
    (fields.reverse.lookup k).map g = ((sortFields ws).lookup k).map some := by
  rw [lookup_sortFields, ← lookup_mapFields, ← lookup_mapFields, ← reverse_mapFields,
    ← reverse_mapFields, h]

/-- The message is what a map of fields holds, with a default for most of them. -/
structure SupernodeReads (S : FloatSyntax FiniteF64) (map : List (String × Doc))
    (n : Supernode.Protocol.SignalingMessage) : Prop where
  msgType : ∃ t, map.lookup "type" = some t ∧ variantName t = some n.msgType.val
  sender : n.sender = ((map.lookup "sender").bind valueStr?).getD ""
  payload : n.payload = (map.lookup "payload").getD (.obj [])
  timestamp : n.timestamp =
    (((map.lookup "timestamp").bind (Supernode.Protocol.asF64 S)).getD F64.zero).val
  target : n.target = (map.lookup "target").bind valueStr?
  signature : n.signature = (map.lookup "signature").bind valueStr?
  protocolVersion : n.protocolVersion =
    .ofNat (((map.lookup "v").bind Supernode.Protocol.asU64).getD 2)
  timestampRaw : n.timestampRaw = map.lookup "timestamp"

theorem supernode_ofName_iff {name : String} {t : Supernode.Protocol.MessageType} :
    Supernode.Protocol.MessageType.ofName name = some t ↔ t.val = name := by
  unfold Supernode.Protocol.MessageType.ofName
  split
  · rw [Option.some.injEq, Subtype.ext_iff, eq_comm]
  · next hname => exact iff_of_false nofun fun h => hname (h ▸ t.property)

theorem supernode_fromFields_iff {map : List (String × Doc)}
    {n : Supernode.Protocol.SignalingMessage} :
    Supernode.Protocol.SignalingMessage.fromFields S map = some n ↔ SupernodeReads S map n := by
  simp only [Supernode.Protocol.SignalingMessage.fromFields, Option.bind_eq_bind,
    Option.bind_eq_some_iff, Option.some.injEq]
  constructor
  · rintro ⟨t, ⟨name, ⟨d, hd, hname⟩, ht⟩, rfl⟩
    exact ⟨⟨d, hd, hname.trans (congrArg some (supernode_ofName_iff.mp ht).symm)⟩, rfl, rfl, rfl,
      rfl, rfl, rfl, rfl⟩
  · rintro ⟨⟨d, hd, hname⟩, hsender, hpayload, htimestamp, htarget, hsignature, hv, hraw⟩
    refine ⟨n.msgType, ⟨n.msgType.val, ⟨d, hd, hname⟩, supernode_ofName_iff.mpr rfl⟩, ?_⟩
    rw [← hsender, ← hpayload, ← htimestamp, ← htarget, ← hsignature, ← hv, ← hraw]

/-! ## What is signed -/

/-- The fields a signature covers, as the documents they are written as. -/
structure SignedFields where
  payload : Doc
  sender : String
  target : Option String
  timestamp : Doc
  msgType : String
  protocolVersion : UInt32

def SignedFields.fields (f : SignedFields) : List (String × Doc) :=
  [("payload", f.payload), ("sender", .str f.sender)] ++
    (f.target.map fun t => ("target", .str t)).toList ++
    [("timestamp", f.timestamp), ("type", .str f.msgType),
      ("v", .num (.ofInt f.protocolVersion.toNat))]

def SignedFields.bytes (f : SignedFields) : Bytes :=
  utf8Bytes (docText (.obj f.fields))

theorem SignedFields.bytes_injective : Function.Injective SignedFields.bytes := by
  intro f g h
  have hfields : f.fields = g.fields := Value.obj.inj (docText_injective (utf8Bytes_injective h))
  obtain ⟨fpayload, fsender, ftarget, ftimestamp, ftype, fv⟩ := f
  obtain ⟨gpayload, gsender, gtarget, gtimestamp, gtype, gv⟩ := g
  have hversion : ∀ {v w : UInt32}, Literal.ofInt v.toNat = Literal.ofInt w.toNat → v = w :=
    fun hvw => UInt32.toNat_inj.mp (Int.ofNat_inj.mp (Literal.ofInt_injective hvw))
  unfold SignedFields.fields at hfields
  -- the target is there on both sides or on neither
  cases ftarget with
  | none =>
    cases gtarget with
    | none =>
      simp only [Option.map_none, Option.toList_none, List.append_nil, List.cons_append,
        List.nil_append, List.cons.injEq, Prod.mk.injEq, true_and, Value.str.injEq,
        Value.num.injEq, and_true] at hfields
      obtain ⟨rfl, rfl, rfl, rfl, hv⟩ := hfields
      rw [hversion hv]
    | some t => simp at hfields
  | some t =>
    cases gtarget with
    | none => simp at hfields
    | some t' =>
      simp only [Option.map_some, Option.toList_some, List.cons_append, List.nil_append,
        List.cons.injEq, Prod.mk.injEq, true_and, Value.str.injEq, Value.num.injEq,
        and_true] at hfields
      obtain ⟨rfl, rfl, rfl, rfl, rfl, hv⟩ := hfields
      rw [hversion hv]

def clientSigned (S : FloatSyntax FiniteF64) (m : Client.Protocol.SignalingMessage) :
    SignedFields where
  payload := toDoc S (.obj m.payload)
  sender := m.sender
  target := m.target
  timestamp := .num (m.timestampNumber.toLiteral S)
  msgType := m.msgType.asWireStr
  protocolVersion := m.protocolVersion

def supernodeSigned (S : FloatSyntax FiniteF64) (n : Supernode.Protocol.SignalingMessage) :
    SignedFields where
  payload := n.payload
  sender := n.sender
  target := n.target
  timestamp := n.timestampRaw.getD (Supernode.Protocol.timestampDoc S n.timestamp)
  msgType := n.msgType.val
  protocolVersion := n.protocolVersion

theorem client_canonicalBytes (m : Client.Protocol.SignalingMessage) :
    m.canonicalBytes S = (clientSigned S m).bytes := by
  rw [Client.Protocol.SignalingMessage.canonicalBytes, toVec_eq, SignedFields.bytes]
  congr 2
  rw [toDoc, Value.map_obj]
  congr 1
  cases htarget : m.target <;>
    simp [Client.Protocol.SignalingMessage.canonicalFields, SignedFields.fields, clientSigned,
      htarget, toDoc, mapFields, Number.toLiteral]

theorem supernode_canonicalBytes (n : Supernode.Protocol.SignalingMessage) :
    n.canonicalBytes S = (supernodeSigned S n).bytes :=
  rfl

/-! ## When both read one text -/

/-- The last field of a key. -/
def docField (d : Doc) (k : String) : Option Doc :=
  (structFields d).bind fun fields => fields.reverse.lookup k

/-- The number is written as it would be written again. -/
def IsCanonical (S : FloatSyntax FiniteF64) (l : Literal) : Prop :=
  ∃ n, Number.ofLiteral S l = some n ∧ n.toLiteral S = l

/-- The timestamp is the text of a double, and so is every number of the payload
its own text; no object of the payload stands for a number. -/
structure WrittenAlike (S : FloatSyntax FiniteF64) (J : JsonSyntax) (now : FiniteF64) (d : Doc) :
    Prop where
  timestamp : ∀ t, docField d "timestamp" = some t → ∃ x, t = .num (S.text x)
  noTimestamp : docField d "timestamp" = none → now = F64.zero
  payload : ∀ p, docField d "payload" = some p →
    p.dedup.Every (IsCanonical S) fun fields => numberObject? J numberKey fields = none

theorem lookup_eq_none_of_filter {fields : List (String × Doc)} {k : String}
    (h : fields.filter (fun e => e.1 == k) = []) : fields.lookup k = none := by
  rw [List.lookup_eq_none_iff]
  intro e he
  have hne := List.filter_eq_nil_iff.mp h e he
  rw [bne_iff_ne]
  intro hk
  rw [hk] at hne
  exact hne (beq_self_eq_true _)

theorem lookup_reverse_of_once {fields : List (String × Doc)} {k : String}
    (h : (fields.filter fun e => e.1 == k).length ≤ 1) :
    fields.reverse.lookup k = fields.lookup k := by
  induction fields with
  | nil => rfl
  | cons e fields ih =>
    rw [List.reverse_cons, List.lookup_append, lookup_cons_ite, lookup_cons_ite, List.lookup_nil]
    by_cases hk : k = e.1
    · have hnil : fields.filter (fun e => e.1 == k) = [] := by
        rw [List.filter_cons_of_pos (by rw [hk]; exact beq_self_eq_true _), List.length_cons] at h
        exact List.eq_nil_of_length_eq_zero (by omega)
      have hrev : fields.reverse.filter (fun e => e.1 == k) = [] := by
        rw [List.filter_reverse, hnil, List.reverse_nil]
      rw [lookup_eq_none_of_filter hrev, Option.none_or, if_pos hk, if_pos hk]
    · rw [List.filter_cons_of_neg (by rw [beq_iff_eq]; exact Ne.symm hk)] at h
      rw [if_neg hk, if_neg hk, ih h, Option.or_none]

theorem lookup_of_knownOnce {fields : List (String × Doc)} (h : knownOnce fields = true)
    {k : String} (hk : k ∈ fieldNames) : fields.reverse.lookup k = fields.lookup k :=
  lookup_reverse_of_once (of_decide_eq_true (List.all_eq_true.mp h k hk))

/-- The fields both have read from one object. -/
structure BothRead (S : FloatSyntax FiniteF64) (J : JsonSyntax) (now : FiniteF64) (d : Doc)
    (m : Client.Protocol.SignalingMessage) (n : Supernode.Protocol.SignalingMessage) where
  fields : List (String × Doc)
  map : List (String × Doc)
  client : ClientReads S now fields m
  supernode : SupernodeReads S map n
  field : ∀ k ∈ fieldNames, docField d k = fields.lookup k
  read : ∀ k ∈ fieldNames,
    (fields.lookup k).map (readRaw J numberKey (payloadDepth + 1)) = (map.lookup k).map some

theorem exists_bothRead {now : FiniteF64} {d : Doc} {m : Client.Protocol.SignalingMessage}
    {n : Supernode.Protocol.SignalingMessage}
    (hm : Client.Protocol.SignalingMessage.fromDoc S now d = some m)
    (hn : Supernode.Protocol.SignalingMessage.fromDoc S J d = some n) :
    Nonempty (BothRead S J now d m n) := by
  obtain ⟨fields, hfields, honce, hclient⟩ := client_fromDoc_iff.mp hm
  obtain ⟨_, ws, rfl, -, hread, hsupernode⟩ := supernode_fromDoc_iff.mp hn
  cases hfields
  have hlast : ∀ k ∈ fieldNames, fields.reverse.lookup k = fields.lookup k := fun k hk =>
    lookup_of_knownOnce honce hk
  refine ⟨fields, sortFields ws, hclient, supernode_fromFields_iff.mp hsupernode, hlast, ?_⟩
  intro k hk
  rw [← hlast k hk]
  exact lookup_of_readFields hread k

section Fields

variable {now : FiniteF64} {d : Doc} {m : Client.Protocol.SignalingMessage}
  {n : Supernode.Protocol.SignalingMessage}

/-- What the client has found under a key, the supernode has read from it. -/
theorem BothRead.lookup_map (b : BothRead S J now d m n) {k : String} (hk : k ∈ fieldNames)
    {x : Doc} (hx : b.fields.lookup k = some x) :
    ∃ y, b.map.lookup k = some y ∧ readRaw J numberKey (payloadDepth + 1) x = some y := by
  have hread := b.read k hk
  rw [hx] at hread
  obtain ⟨y, hy, hxy⟩ := Option.map_eq_some_iff.mp hread.symm
  exact ⟨y, hy, hxy.symm⟩

theorem BothRead.lookup_map_none (b : BothRead S J now d m n) {k : String} (hk : k ∈ fieldNames)
    (hx : b.fields.lookup k = none) : b.map.lookup k = none := by
  have hread := b.read k hk
  rw [hx] at hread
  exact Option.map_eq_none_iff.mp hread.symm

theorem variantName_of_readRaw {r : Nat} {x y : Doc} {s t : String}
    (hread : readRaw J numberKey (r + 1) x = some y) (hx : variantName x = some s)
    (hy : variantName y = some t) : s = t := by
  unfold variantName at hx
  split at hx
  · rw [readRaw_str, Option.some.injEq] at hread
    subst hread
    exact Option.some.inj (hx.symm.trans hy)
  · rcases readRaw_obj hread with ⟨l, -, -, rfl⟩ | ⟨r', ws, -, -, hws, rfl⟩
    · cases hy
    · cases ws with
      | nil => cases hws
      | cons w ws =>
        rw [mapFields_cons, mapFields_cons, mapFields_nil, readRaw_null, List.cons.injEq,
          Prod.mk.injEq, Option.some.injEq] at hws
        obtain ⟨⟨hkey, hnull⟩, hnil⟩ := hws
        obtain ⟨w₁, w₂⟩ := w
        cases ws with
        | nil =>
          change _ = w₁ at hkey
          change Value.null = w₂ at hnull
          subst hkey
          subst hnull
          exact Option.some.inj (hx.symm.trans hy)
        | cons _ _ => cases hnil
  · cases hx

theorem BothRead.msgType_eq (b : BothRead S J now d m n) :
    m.msgType.asWireStr = n.msgType.val := by
  obtain ⟨x, hx, hname⟩ := b.client.msgType
  obtain ⟨y, hy, hread⟩ := b.lookup_map (by decide) hx
  obtain ⟨y', hy', hname'⟩ := b.supernode.msgType
  rw [hy, Option.some.injEq] at hy'
  subst hy'
  exact variantName_of_readRaw hread hname hname'

theorem BothRead.sender_eq (b : BothRead S J now d m n) : m.sender = n.sender := by
  obtain ⟨y, hy, hread⟩ := b.lookup_map (by decide) b.client.sender
  rw [readRaw_str, Option.some.injEq] at hread
  rw [b.supernode.sender, hy, ← hread]
  rfl

theorem BothRead.target_eq (b : BothRead S J now d m n) : m.target = n.target := by
  have hclient := b.client.target
  rw [b.supernode.target]
  cases hx : b.fields.lookup "target" with
  | none =>
    rw [hx] at hclient
    rw [b.lookup_map_none (by decide) hx]
    exact (Option.some.inj hclient).symm
  | some x =>
    obtain ⟨y, hy, hread⟩ := b.lookup_map (by decide) hx
    rw [hx] at hclient
    rw [hy, Option.bind_some]
    cases x with
    | null =>
      rw [readRaw_null, Option.some.injEq] at hread
      rw [← hread]
      exact (Option.some.inj hclient).symm
    | str s =>
      rw [readRaw_str, Option.some.injEq] at hread
      rw [← hread]
      exact (Option.some.inj hclient).symm
    | _ => cases hclient

theorem BothRead.protocolVersion_eq (b : BothRead S J now d m n) :
    m.protocolVersion = n.protocolVersion := by
  have hclient := b.client.protocolVersion
  rw [b.supernode.protocolVersion]
  cases hx : b.fields.lookup "v" with
  | none =>
    rw [hx] at hclient
    rw [b.lookup_map_none (by decide) hx]
    exact (Option.some.inj hclient).symm
  | some x =>
    obtain ⟨y, hy, hread⟩ := b.lookup_map (by decide) hx
    rw [hx] at hclient
    rw [hy, Option.bind_some]
    cases x with
    | num l =>
      rw [readRaw_num, Option.some.injEq] at hread
      rw [← hread]
      obtain ⟨v, hv, hrange⟩ := Option.bind_eq_some_iff.mp hclient
      split at hrange
      · next hin =>
        have hin64 : 0 ≤ v ∧ v < 2 ^ 64 := ⟨hin.1, by omega⟩
        rw [Supernode.Protocol.asU64, hv, Option.bind_some, if_pos hin64, Option.getD_some]
        exact (Option.some.inj hrange).symm
      · cases hrange
    | _ => cases hclient

theorem BothRead.payload_iff (b : BothRead S J now d m n) :
    toDoc S (.obj m.payload) = n.payload ↔
      ∀ p, docField d "payload" = some p →
        p.dedup.Every (IsCanonical S) fun fields => numberObject? J numberKey fields = none := by
  have hclient := b.client.payload
  rw [b.supernode.payload, b.field "payload" (by decide)]
  cases hx : b.fields.lookup "payload" with
  | none =>
    rw [hx] at hclient
    rw [b.lookup_map_none (by decide) hx, ← Option.some.inj hclient]
    exact iff_of_true rfl nofun
  | some x =>
    obtain ⟨y, hy, hread⟩ := b.lookup_map (by decide) hx
    rw [hx, readPayload_some_iff] at hclient
    rw [hy, Option.getD_some, eq_collapse_of_readRaw hread, toDoc,
      map_eq_collapse_iff (map_dedup_of_readValue hclient)]
    constructor
    · intro h p hp
      rw [← Option.some.inj hp]
      exact h
    · exact fun h => h x rfl

theorem timestampDoc_val (x : FiniteF64) :
    Supernode.Protocol.timestampDoc S x.val = .num (S.text x) := by
  rw [Supernode.Protocol.timestampDoc, numberFromF64, dif_pos x.property]
  rfl

theorem timestampNumber_of_val {m : Client.Protocol.SignalingMessage} {x : FiniteF64}
    (h : m.timestamp = x.val) : m.timestampNumber.toLiteral S = S.text x := by
  rw [Client.Protocol.SignalingMessage.timestampNumber, h, numberFromF64, dif_pos x.property]
  rfl

theorem BothRead.timestamp_iff (hS : S.RoundTrips) (b : BothRead S J now d m n) :
    (clientSigned S m).timestamp = (supernodeSigned S n).timestamp ↔
      (∀ t, docField d "timestamp" = some t → ∃ x, t = .num (S.text x)) ∧
        (docField d "timestamp" = none → now = F64.zero) := by
  obtain ⟨x, hclient, hx⟩ := b.client.timestamp
  rw [clientSigned, supernodeSigned, timestampNumber_of_val hx, b.supernode.timestampRaw,
    b.supernode.timestamp, b.field "timestamp" (by decide)]
  cases hfield : b.fields.lookup "timestamp" with
  | none =>
    rw [hfield] at hclient
    have hnow : now = x := Option.some.inj hclient
    rw [b.lookup_map_none (by decide) hfield, Option.bind_none, Option.getD_none,
      Option.getD_none, timestampDoc_val, Value.num.injEq, S.text_injective.eq_iff, ← hnow]
    exact ⟨fun h => ⟨nofun, fun _ => h⟩, fun h => h.2 rfl⟩
  | some t =>
    obtain ⟨y, hy, hread⟩ := b.lookup_map (by decide) hfield
    rw [hfield] at hclient
    cases t with
    | num l =>
      have hl : S.read l = some x := hclient
      rw [readRaw_num, Option.some.injEq] at hread
      rw [hy, Option.getD_some, ← hread, Value.num.injEq]
      constructor
      · intro h
        refine ⟨fun t ht => ⟨x, ?_⟩, nofun⟩
        rw [← Option.some.inj ht, h]
      · rintro ⟨h, -⟩
        obtain ⟨x', hx'⟩ := h _ rfl
        have hlit : l = S.text x' := Value.num.inj hx'
        rw [hlit, hS x', Option.some.injEq] at hl
        rw [hlit, hl]
    | _ => cases hclient

end Fields

theorem canonicalBytes_eq_iff (hS : S.RoundTrips) {now : FiniteF64} {d : Doc}
    {m : Client.Protocol.SignalingMessage} {n : Supernode.Protocol.SignalingMessage}
    (hm : Client.Protocol.SignalingMessage.fromDoc S now d = some m)
    (hn : Supernode.Protocol.SignalingMessage.fromDoc S J d = some n) :
    m.canonicalBytes S = n.canonicalBytes S ↔ WrittenAlike S J now d := by
  obtain ⟨b⟩ := exists_bothRead hm hn
  rw [client_canonicalBytes, supernode_canonicalBytes, SignedFields.bytes_injective.eq_iff]
  constructor
  · intro h
    obtain ⟨htimestamp, hnow⟩ := (b.timestamp_iff hS).mp (congrArg SignedFields.timestamp h)
    exact ⟨htimestamp, hnow, b.payload_iff.mp (congrArg SignedFields.payload h)⟩
  · rintro ⟨htimestamp, hnow, hpayload⟩
    have hts : (clientSigned S m).timestamp = (supernodeSigned S n).timestamp :=
      (b.timestamp_iff hS).mpr ⟨htimestamp, hnow⟩
    have hpl : (clientSigned S m).payload = (supernodeSigned S n).payload :=
      b.payload_iff.mpr hpayload
    have hsender : (clientSigned S m).sender = (supernodeSigned S n).sender := b.sender_eq
    have htarget : (clientSigned S m).target = (supernodeSigned S n).target := b.target_eq
    have htype : (clientSigned S m).msgType = (supernodeSigned S n).msgType := b.msgType_eq
    have hv : (clientSigned S m).protocolVersion = (supernodeSigned S n).protocolVersion :=
      b.protocolVersion_eq
    cases hc : clientSigned S m
    cases hs : supernodeSigned S n
    rw [hc, hs] at hts hpl hsender htarget htype hv
    simp only [SignedFields.mk.injEq]
    exact ⟨hpl, hsender, htarget, hts, htype, hv⟩

/-! ## Reading what was written -/

/-- The fields of a written message, each once. -/
structure WrittenAs (J : JsonSyntax) (f : SignedFields) (signature : Option String) (fields : List (String × Doc)) :
    Prop where
  once : knownOnce fields = true
  msgType : fields.lookup "type" = some (.str f.msgType)
  sender : fields.lookup "sender" = some (.str f.sender)
  payload : fields.lookup "payload" = some f.payload
  timestamp : fields.lookup "timestamp" = some f.timestamp
  target : fields.lookup "target" = f.target.map .str
  signature : fields.lookup "signature" = signature.map .str
  protocolVersion : fields.lookup "v" = some (.num (.ofInt f.protocolVersion.toNat))
  notNumber : ¬NumberFirst numberKey fields
  /-- Beside payload and timestamp there are strings and a number. -/
  others : ∀ e ∈ fields, e.2 = f.payload ∨ e.2 = f.timestamp ∨
    ∀ r, readRaw J numberKey r e.2 = some e.2

theorem writtenAs_client (m : Client.Protocol.SignalingMessage) {x : FiniteF64}
    (hx : m.timestamp = x.val) : WrittenAs J (clientSigned S m) m.signature (m.jsonFields S) := by
  have htimestamp : Client.Protocol.timestampDoc S m.timestamp = (clientSigned S m).timestamp := by
    rw [clientSigned, timestampNumber_of_val hx, Client.Protocol.timestampDoc, hx, numberFromF64,
      dif_pos x.property]
    rfl
  rw [Client.Protocol.SignalingMessage.jsonFields, htimestamp]
  cases htarget : m.target <;> cases hsignature : m.signature
  all_goals
    constructor
    case once => rfl
    case notNumber => exact fun h => absurd (show "type" = numberKey from Option.some.inj h) (by decide)
    case others =>
      simp only [Option.map_none, Option.map_some, Option.toList_none, Option.toList_some,
        List.append_nil, List.cons_append, List.nil_append, List.forall_mem_cons, readRaw_str,
        readRaw_num, implies_true, or_true, true_and]
      exact ⟨.inl rfl, .inr (.inl trivial), nofun⟩
    all_goals simp [lookup_cons_ite, clientSigned, htarget]

theorem writtenAs_supernode (n : Supernode.Protocol.SignalingMessage) :
    WrittenAs J { supernodeSigned S n with
      timestamp := Supernode.Protocol.timestampDoc S n.timestamp } n.signature (n.jsonFields S) := by
  rw [Supernode.Protocol.SignalingMessage.jsonFields]
  cases htarget : n.target <;> cases hsignature : n.signature
  all_goals
    constructor
    case once => rfl
    case notNumber => exact fun h => absurd (show "payload" = numberKey from Option.some.inj h) (by decide)
    case others =>
      simp only [Option.map_none, Option.map_some, Option.toList_none, Option.toList_some,
        List.append_nil, List.cons_append, List.nil_append, List.forall_mem_cons, readRaw_str,
        readRaw_num, implies_true, or_true, true_and]
      exact ⟨.inl rfl, .inr (.inl trivial), nofun⟩
    all_goals simp [lookup_cons_ite, supernodeSigned, htarget]

section Written

variable {f : SignedFields} {signature : Option String} {fields : List (String × Doc)}
  {x : FiniteF64}

theorem readVersion_ofInt (v : UInt32) :
    Client.Protocol.readVersion (some (.num (.ofInt v.toNat))) = some v := by
  have hlt := v.toNat_lt
  have hrange : (0 : Int) ≤ v.toNat ∧ (v.toNat : Int) < 2 ^ 32 := ⟨by omega, by omega⟩
  rw [Client.Protocol.readVersion, Literal.whole?_ofInt, Option.bind_some, if_pos hrange,
    Int.toNat_natCast, UInt32.ofNat_toNat]

theorem readOptionalStr_map (s : Option String) :
    Client.Protocol.readOptionalStr (s.map Value.str) = some s := by
  cases s <;> rfl

theorem client_reads_written (hS : S.RoundTrips) (hw : WrittenAs J f signature fields)
    (hx : f.timestamp = .num (S.text x)) (now : FiniteF64) :
    (∃ m, Client.Protocol.SignalingMessage.fromDoc S now (.obj fields) = some m ∧
        clientSigned S m = f) ↔
      (∃ t : Client.Protocol.MessageType, t.asWireStr = f.msgType) ∧
        ∃ payload, Client.Protocol.readPayload S (some f.payload) = some payload ∧
          toDoc S (.obj payload) = f.payload := by
  constructor
  · rintro ⟨m, hm, rfl⟩
    obtain ⟨_, hfields, -, hreads⟩ := client_fromDoc_iff.mp hm
    cases hfields
    have hpayload := hreads.payload
    rw [hw.payload] at hpayload
    exact ⟨⟨m.msgType, rfl⟩, m.payload, hpayload, rfl⟩
  · rintro ⟨⟨t, ht⟩, payload, hpayload, hsame⟩
    let m : Client.Protocol.SignalingMessage := {
      msgType := t, sender := f.sender, payload := payload, timestamp := x.val
      target := f.target, signature := signature, protocolVersion := f.protocolVersion }
    have hreads : ClientReads S now fields m := {
      msgType := ⟨_, hw.msgType, congrArg some ht.symm⟩
      sender := hw.sender
      payload := by rw [hw.payload]; exact hpayload
      timestamp := ⟨x, by rw [hw.timestamp, hx]; exact hS x, rfl⟩
      target := by rw [hw.target]; exact readOptionalStr_map _
      signature := by rw [hw.signature]; exact readOptionalStr_map _
      protocolVersion := by rw [hw.protocolVersion]; exact readVersion_ofInt _ }
    refine ⟨m, client_fromDoc_iff.mpr ⟨fields, rfl, hw.once, hreads⟩, ?_⟩
    have htimestamp : (.num (m.timestampNumber.toLiteral S) : Doc) = f.timestamp := by
      rw [timestampNumber_of_val (S := S) (m := m) (x := x) rfl, hx]
    simp only [clientSigned, htimestamp, ht, hsame, m]

theorem asU64_ofInt (v : UInt32) :
    Supernode.Protocol.asU64 (.num (.ofInt v.toNat)) = some v.toNat := by
  have hlt := v.toNat_lt
  have hrange : (0 : Int) ≤ v.toNat ∧ (v.toNat : Int) < 2 ^ 64 := ⟨by omega, by omega⟩
  rw [Supernode.Protocol.asU64, Literal.whole?_ofInt, Option.bind_some, if_pos hrange,
    Int.toNat_natCast]

theorem supernodeReads_written (hw : WrittenAs J f signature fields)
    (hx : f.timestamp = .num (S.text x)) {ws : List (String × Doc)}
    (hread : mapFields (readRaw J numberKey (payloadDepth + 1)) fields = mapFields some ws)
    {n : Supernode.Protocol.SignalingMessage} (hn : SupernodeReads S (sortFields ws) n) :
    ∃ y, readRaw J numberKey (payloadDepth + 1) f.payload = some y ∧
      supernodeSigned S n = { f with payload := y } := by
  have hlookup : ∀ {k : String}, k ∈ fieldNames → ∀ {d : Doc}, fields.lookup k = some d →
      ∃ y, (sortFields ws).lookup k = some y ∧
        readRaw J numberKey (payloadDepth + 1) d = some y := by
    intro k hk d hd
    have hboth := lookup_of_readFields hread k
    rw [lookup_of_knownOnce hw.once hk, hd] at hboth
    obtain ⟨y, hy, hdy⟩ := Option.map_eq_some_iff.mp hboth.symm
    exact ⟨y, hy, hdy.symm⟩
  have hlookupNone : ∀ {k : String}, k ∈ fieldNames → fields.lookup k = none →
      (sortFields ws).lookup k = none := by
    intro k hk hd
    have hboth := lookup_of_readFields hread k
    rw [lookup_of_knownOnce hw.once hk, hd] at hboth
    exact Option.map_eq_none_iff.mp hboth.symm
  have hstr : ∀ {k s : String}, k ∈ fieldNames → fields.lookup k = some (.str s) →
      (sortFields ws).lookup k = some (.str s) := by
    intro k s hk hd
    obtain ⟨y, hy, hdy⟩ := hlookup hk hd
    rw [readRaw_str] at hdy
    rw [hy, Option.some.inj hdy]
  obtain ⟨y, hy, hread'⟩ := hlookup (by decide) hw.payload
  refine ⟨y, hread', ?_⟩
  have htype : n.msgType.val = f.msgType := by
    obtain ⟨t, ht, hname⟩ := hn.msgType
    rw [hstr (by decide) hw.msgType] at ht
    rw [← Option.some.inj ht] at hname
    exact (Option.some.inj hname).symm
  have hsender : n.sender = f.sender := by
    rw [hn.sender, hstr (by decide) hw.sender]
    rfl
  have hpayload : n.payload = y := by rw [hn.payload, hy, Option.getD_some]
  have htimestamp : n.timestampRaw = some f.timestamp := by
    obtain ⟨z, hz, hrz⟩ := hlookup (by decide) hw.timestamp
    rw [hx, readRaw_num, Option.some.injEq] at hrz
    rw [hn.timestampRaw, hz, hx, hrz]
  have htarget : n.target = f.target := by
    rw [hn.target]
    have hf := hw.target
    cases ht : f.target with
    | none =>
      rw [ht] at hf
      rw [hlookupNone (by decide) hf]
      rfl
    | some t =>
      rw [ht] at hf
      rw [hstr (by decide) hf]
      rfl
  have hversion : n.protocolVersion = f.protocolVersion := by
    obtain ⟨z, hz, hrz⟩ := hlookup (by decide) hw.protocolVersion
    rw [readRaw_num, Option.some.injEq] at hrz
    rw [hn.protocolVersion, hz, ← hrz, Option.bind_some, asU64_ofInt, Option.getD_some,
      UInt32.ofNat_toNat]
  rw [supernodeSigned, htype, hsender, hpayload, htimestamp, htarget, hversion, Option.getD_some]

theorem supernode_reads_written (hw : WrittenAs J f signature fields)
    (hx : f.timestamp = .num (S.text x)) :
    (∃ n, Supernode.Protocol.SignalingMessage.fromDoc S J (.obj fields) = some n ∧
        supernodeSigned S n = f) ↔
      f.msgType ∈ messageTypeNames ∧
        readRaw J numberKey (payloadDepth + 1) f.payload = some f.payload := by
  constructor
  · rintro ⟨n, hn, rfl⟩
    obtain ⟨_, ws, hd, -, hread, hreads⟩ := supernode_fromDoc_iff.mp hn
    cases hd
    obtain ⟨y, hy, hsame⟩ := supernodeReads_written hw hx hread (supernode_fromFields_iff.mp hreads)
    have hpayload : (supernodeSigned S n).payload = y := congrArg SignedFields.payload hsame
    rw [← hpayload] at hy
    exact ⟨n.msgType.property, hy⟩
  · rintro ⟨htype, hpayload⟩
    have hself : mapFields (readRaw J numberKey (payloadDepth + 1)) fields =
        mapFields some fields := by
      refine mapFields_congr fun e he => ?_
      rcases hw.others e he with hp | ht | hself
      · rw [hp, hpayload]
      · rw [ht, hx, readRaw_num]
      · exact hself _
    have hlookup : (sortFields fields).lookup "type" = some (.str f.msgType) := by
      rw [lookup_sortFields, lookup_of_knownOnce hw.once (by decide), hw.msgType]
    obtain ⟨n, hn⟩ : ∃ n, SupernodeReads S (sortFields fields) n :=
      ⟨⟨⟨f.msgType, htype⟩, _, _, _, _, _, _, _⟩, ⟨_, hlookup, rfl⟩, rfl, rfl, rfl, rfl, rfl, rfl,
        rfl⟩
    refine ⟨n, supernode_fromDoc_iff.mpr
      ⟨fields, fields, rfl, hw.notNumber, hself, supernode_fromFields_iff.mpr hn⟩, ?_⟩
    obtain ⟨y, hy, hsame⟩ := supernodeReads_written hw hx hself hn
    rw [hpayload, Option.some.injEq] at hy
    rw [hsame, ← hy]

end Written

theorem readPayload_self_iff {w : Doc} (hsorted : w.Sorted) (hfits : w.Fits (payloadDepth + 1)) :
    (∃ payload, Client.Protocol.readPayload S (some w) = some payload ∧
        toDoc S (.obj payload) = w) ↔
      (∃ fields, w = .obj fields) ∧ w.Every (IsCanonical S) fun _ => True := by
  constructor
  · rintro ⟨payload, hread, rfl⟩
    have hnumbers := map_dedup_of_readValue (readPayload_some_iff.mp hread)
    rw [hsorted.dedup_eq, toDoc, Value.map_map] at hnumbers
    refine ⟨⟨_, Value.map_obj _ _⟩, ?_⟩
    refine (Value.every_map_iff (q := fun _ => True) (fun _ => Iff.rfl) _).mpr ?_
    exact (Value.every_of_map_eq hnumbers).mono (fun n hn => ⟨n, hn, rfl⟩) fun _ h => h
  · rintro ⟨⟨fields, rfl⟩, hcanonical⟩
    obtain ⟨v, hread, hsame⟩ := exists_readValue hfits
      ((hcanonical.and hsorted).mono (fun l h => h.1) fun _ h => h.2)
    cases v with
    | obj payload => exact ⟨payload, readPayload_some_iff.mpr hread, hsame⟩
    | arr items => rw [Value.map_arr] at hsame; cases hsame
    | _ => cases hsame

/-- A written message is read with the same signed bytes by both. -/
def KeptByBoth (S : FloatSyntax FiniteF64) (J : JsonSyntax) (written : String) (signed : Bytes) :
    Prop :=
  (∀ now, ∃ m, Client.Protocol.SignalingMessage.fromJson S J now written = some m ∧
      m.canonicalBytes S = signed) ∧
    ∃ n, Supernode.Protocol.SignalingMessage.fromJson S J written = some n ∧
      n.canonicalBytes S = signed

theorem client_fromJson_docText (now : FiniteF64) (d : Doc) :
    Client.Protocol.SignalingMessage.fromJson S J now (docText d) =
      Client.Protocol.SignalingMessage.fromDoc S now d := by
  rw [Client.Protocol.SignalingMessage.fromJson, docText, J.read_print, Option.bind_some]

theorem supernode_fromJson_docText (d : Doc) :
    Supernode.Protocol.SignalingMessage.fromJson S J (docText d) =
      Supernode.Protocol.SignalingMessage.fromDoc S J d := by
  rw [Supernode.Protocol.SignalingMessage.fromJson, docText, J.read_print, Option.bind_some]

theorem keptByBoth_iff (hS : S.RoundTrips) {f : SignedFields} {signature : Option String}
    {fields : List (String × Doc)} {x : FiniteF64} (hw : WrittenAs J f signature fields)
    (hx : f.timestamp = .num (S.text x)) (hsorted : f.payload.Sorted)
    (hfits : f.payload.Fits (payloadDepth + 1)) :
    KeptByBoth S J (docText (.obj fields)) f.bytes ↔
      ((∃ t : Client.Protocol.MessageType, t.asWireStr = f.msgType) ∧
        (∃ fields, f.payload = .obj fields) ∧ f.payload.Every (IsCanonical S) fun _ => True) ∧
      f.msgType ∈ messageTypeNames ∧
        f.payload.Every (fun _ => True) fun fields => ¬NumberFirst numberKey fields := by
  rw [← readPayload_self_iff hsorted hfits, ← readRaw_self_iff (J := J) hsorted hfits]
  have hclient := client_reads_written hS hw hx
  have hsupernode := supernode_reads_written hw hx
  simp only [KeptByBoth, client_fromJson_docText, supernode_fromJson_docText,
    client_canonicalBytes, supernode_canonicalBytes, SignedFields.bytes_injective.eq_iff, hclient,
    hsupernode]
  have hclock : Nonempty FiniteF64 := ⟨F64.zero⟩
  rw [forall_const]

theorem KeptByBoth.eq_written {f g : SignedFields} {signature : Option String}
    {fields : List (String × Doc)} {x : FiniteF64} (hw : WrittenAs J f signature fields)
    (hx : f.timestamp = .num (S.text x)) (hpayload : g.payload = f.payload)
    (h : KeptByBoth S J (docText (.obj fields)) g.bytes) : g = f := by
  obtain ⟨-, n, hn, hbytes⟩ := h
  rw [supernode_fromJson_docText] at hn
  obtain ⟨_, ws, hd, -, hread, hreads⟩ := supernode_fromDoc_iff.mp hn
  cases hd
  obtain ⟨y, -, hsame⟩ := supernodeReads_written hw hx hread (supernode_fromFields_iff.mp hreads)
  have hg : supernodeSigned S n = g := SignedFields.bytes_injective hbytes
  rw [hg] at hsame
  have hy : y = f.payload := (congrArg SignedFields.payload hsame).symm.trans hpayload
  rw [hsame, hy]

/-- The type is one both know, and no object of the payload, by key, starts with
the key that stands for a number. -/
structure ClientTextKept (d : Doc) : Prop where
  msgType : ∀ t name, docField d "type" = some t → variantName t = some name →
    name ∈ messageTypeNames
  payload : ∀ p, docField d "payload" = some p →
    p.dedup.Every (fun _ => True) fun fields => ¬NumberFirst numberKey fields

theorem plain_iff {now : FiniteF64} {fields : List (String × Doc)}
    {m : Client.Protocol.SignalingMessage} (h : ClientReads S now fields m) :
    (clientSigned S m).payload.Every (fun _ => True) (fun fs => ¬NumberFirst numberKey fs) ↔
      ∀ p, fields.lookup "payload" = some p →
        p.dedup.Every (fun _ => True) fun fs => ¬NumberFirst numberKey fs := by
  have hkeys : ∀ {α β : Type} (g : α → β) (fs : List (String × Value α)),
      ¬NumberFirst numberKey (mapFields (Value.map g) fs) ↔ ¬NumberFirst numberKey fs :=
    fun g fs => not_congr (numberFirst_mapFields_iff numberKey _ fs)
  have hpayload := h.payload
  rw [clientSigned, toDoc, Value.every_map_iff (hkeys _)]
  cases hlookup : fields.lookup "payload" with
  | none =>
    rw [hlookup] at hpayload
    rw [← Option.some.inj hpayload]
    exact iff_of_true (.obj (fun h => by cases h) fun v hv => by cases hv) fun p hp => by cases hp
  | some p =>
    rw [hlookup, readPayload_some_iff] at hpayload
    have hread : (p.dedup.map (Number.ofLiteral S)).Every (fun _ => True)
        (fun fs => ¬NumberFirst numberKey fs) ↔
          p.dedup.Every (fun _ => True) fun fs => ¬NumberFirst numberKey fs :=
      Value.every_map_iff (hkeys _) _
    rw [map_dedup_of_readValue hpayload, Value.every_map_iff (hkeys _)] at hread
    rw [hread]
    exact ⟨fun h' q hq => Option.some.inj hq ▸ h', fun h' => h' p rfl⟩

theorem client_kept_iff (hS : S.RoundTrips) {now : FiniteF64} {d : Doc}
    {m : Client.Protocol.SignalingMessage}
    (hm : Client.Protocol.SignalingMessage.fromDoc S now d = some m) :
    KeptByBoth S J (m.toJson S) (m.canonicalBytes S) ↔ ClientTextKept d := by
  obtain ⟨fields, hfields, honce, hreads⟩ := client_fromDoc_iff.mp hm
  have hfield : ∀ k ∈ fieldNames, docField d k = fields.lookup k := fun k hk => by
    rw [docField, hfields, Option.bind_some, lookup_of_knownOnce honce hk]
  obtain ⟨x, -, hx⟩ := hreads.timestamp
  obtain ⟨hsorted, hfits⟩ := hreads.payload_sorted
  have htimestamp : (clientSigned S m).timestamp = .num (S.text x) :=
    congrArg Value.num (timestampNumber_of_val hx)
  rw [client_canonicalBytes, Client.Protocol.SignalingMessage.toJson,
    keptByBoth_iff hS (writtenAs_client m hx) htimestamp (hsorted.map _) (hfits.map _)]
  have hcanonical : (clientSigned S m).payload.Every (IsCanonical S) fun _ => True :=
    (Value.every_map_iff (q := fun _ => True) (fun _ => Iff.rfl) _).mpr
      (hsorted.mono (fun n _ => ⟨n, Number.ofLiteral_toLiteral S hS n, rfl⟩) fun _ _ => trivial)
  obtain ⟨t, ht, hname⟩ := hreads.msgType
  have hplain := plain_iff hreads
  constructor
  · rintro ⟨-, htype, hpayload⟩
    refine ⟨fun t' name ht' hname' => ?_, fun p hp => hplain.mp hpayload p ?_⟩
    · rw [hfield "type" (by decide), ht, Option.some.injEq] at ht'
      rw [← ht', hname, Option.some.injEq] at hname'
      rw [← hname']
      exact htype
    · rw [← hfield "payload" (by decide)]
      exact hp
  · rintro ⟨htype, hpayload⟩
    refine ⟨⟨⟨m.msgType, rfl⟩, ⟨_, Value.map_obj _ _⟩, hcanonical⟩, ?_, hplain.mpr fun p hp => ?_⟩
    · exact htype t _ ((hfield "type" (by decide)).trans ht) hname
    · exact hpayload p ((hfield "payload" (by decide)).trans hp)

/-- The timestamp is the text of a double or missing, the type is one both know,
and the payload is an object whose numbers are their own texts and in which no
object starts with the key that stands for a number. -/
structure SupernodeTextKept (S : FloatSyntax FiniteF64) (J : JsonSyntax) (d : Doc) : Prop where
  msgType : ∀ t name, docField d "type" = some t →
    variantName (collapse J numberKey t.dedup) = some name →
      ∃ u : Client.Protocol.MessageType, u.asWireStr = name
  timestamp : ∀ t, docField d "timestamp" = some t →
    ∃ x, collapse J numberKey t.dedup = .num (S.text x)
  payload : ∀ p, docField d "payload" = some p →
    (∃ fields, collapse J numberKey p.dedup = .obj fields) ∧
      (collapse J numberKey p.dedup).Every (IsCanonical S) fun fields =>
        ¬NumberFirst numberKey fields

theorem supernode_payload_sorted {fields ws : List (String × Doc)}
    {n : Supernode.Protocol.SignalingMessage}
    (hread : mapFields (readRaw J numberKey (payloadDepth + 1)) fields = mapFields some ws)
    (hn : SupernodeReads S (sortFields ws) n) :
    n.payload.Sorted ∧ n.payload.Fits (payloadDepth + 1) := by
  rw [hn.payload]
  have hboth := lookup_of_readFields hread "payload"
  cases hlookup : (sortFields ws).lookup "payload" with
  | none => exact ⟨.obj List.Pairwise.nil nofun, .obj nofun⟩
  | some y =>
    rw [hlookup] at hboth
    obtain ⟨p, -, hp⟩ := Option.map_eq_some_iff.mp hboth
    exact ⟨sorted_of_readRaw hp, fits_of_readRaw hp⟩

theorem supernode_kept_iff (hS : S.RoundTrips) {d : Doc}
    {n : Supernode.Protocol.SignalingMessage}
    (hn : Supernode.Protocol.SignalingMessage.fromDoc S J d = some n) :
    KeptByBoth S J (n.toJson S) (n.canonicalBytes S) ↔ SupernodeTextKept S J d := by
  obtain ⟨fields, ws, rfl, -, hread, hreads⟩ := supernode_fromDoc_iff.mp hn
  have hn := supernode_fromFields_iff.mp hreads
  obtain ⟨hsorted, hfits⟩ := supernode_payload_sorted hread hn
  -- a field by key is the collapsed field of the text
  have hfield : ∀ k, (sortFields ws).lookup k =
      (docField (.obj fields) k).map fun p => collapse J numberKey p.dedup := by
    intro k
    have hboth := lookup_of_readFields hread k
    change _ = (fields.reverse.lookup k).map _
    cases hlookup : fields.reverse.lookup k with
    | none =>
      rw [hlookup] at hboth
      exact Option.map_eq_none_iff.mp hboth.symm
    | some p =>
      rw [hlookup] at hboth
      obtain ⟨y, hy, hpy⟩ := Option.map_eq_some_iff.mp hboth.symm
      rw [hy, eq_collapse_of_readRaw hpy.symm]
      rfl
  obtain ⟨x, hx⟩ : ∃ x : FiniteF64, n.timestamp = x.val := ⟨_, hn.timestamp⟩
  -- what is written differs from what was signed in the timestamp only
  obtain ⟨f, hf⟩ : ∃ f : SignedFields, f = { supernodeSigned S n with
    timestamp := Supernode.Protocol.timestampDoc S n.timestamp } := ⟨_, rfl⟩
  have hw : WrittenAs J f n.signature (n.jsonFields S) := hf ▸ writtenAs_supernode n
  have hfx : f.timestamp = .num (S.text x) := by
    rw [hf]
    change Supernode.Protocol.timestampDoc S n.timestamp = _
    rw [hx, timestampDoc_val]
  have hfpayload : f.payload = n.payload := by rw [hf, supernodeSigned]
  have hftype : f.msgType = n.msgType.val := by rw [hf, supernodeSigned]
  have hsame : supernodeSigned S n = f ↔ ∀ t, docField (.obj fields) "timestamp" = some t →
      ∃ x, collapse J numberKey t.dedup = .num (S.text x) := by
    have hraw := hn.timestampRaw
    have hvalue := hn.timestamp
    rw [hfield] at hraw hvalue
    constructor
    · intro heq t ht
      have hts := congrArg SignedFields.timestamp heq
      rw [ht, Option.map_some] at hraw
      rw [hfx, supernodeSigned, hraw, Option.getD_some] at hts
      exact ⟨x, hts⟩
    · intro h
      cases ht : docField (.obj fields) "timestamp" with
      | none =>
        rw [ht] at hraw
        rw [hf, supernodeSigned, hraw]
        rfl
      | some t =>
        obtain ⟨x', hx'⟩ := h t ht
        rw [ht, Option.map_some, hx'] at hraw hvalue
        rw [Option.bind_some, Supernode.Protocol.asF64, hS x', Option.getD_some] at hvalue
        rw [hf, supernodeSigned, hraw, hvalue, timestampDoc_val]
        rfl
  have hkept : KeptByBoth S J (n.toJson S) (n.canonicalBytes S) ↔
      supernodeSigned S n = f ∧ KeptByBoth S J (docText (.obj (n.jsonFields S))) f.bytes := by
    rw [supernode_canonicalBytes, Supernode.Protocol.SignalingMessage.toJson]
    constructor
    · intro h
      have heq := h.eq_written hw hfx hfpayload.symm
      rw [heq] at h
      exact ⟨heq, h⟩
    · rintro ⟨heq, h⟩
      rw [heq]
      exact h
  have hpayload : f.payload = ((docField (.obj fields) "payload").map
      fun p => collapse J numberKey p.dedup).getD (.obj []) := by
    rw [← hfield, hfpayload]
    exact hn.payload
  rw [← hfpayload] at hsorted hfits
  obtain ⟨t, ht, hname⟩ := hn.msgType
  rw [hfield, Option.map_eq_some_iff] at ht
  obtain ⟨t₀, ht₀, rfl⟩ := ht
  rw [hkept, hsame, keptByBoth_iff hS hw hfx hsorted hfits]
  constructor
  · rintro ⟨htimestamp, ⟨⟨u, hu⟩, hobj, hcanonical⟩, -, hplain⟩
    refine ⟨fun t' name ht' hname' => ⟨u, ?_⟩, htimestamp, fun p hp => ?_⟩
    · rw [ht₀, Option.some.injEq] at ht'
      rw [← ht', hname, Option.some.injEq] at hname'
      rw [hu, ← hname', hftype]
    · rw [hpayload, hp, Option.map_some, Option.getD_some] at hobj hcanonical hplain
      exact ⟨hobj, (hcanonical.and hplain).mono (fun _ h => h.1) fun _ h => h.2⟩
  · rintro ⟨htype, htimestamp, hp⟩
    refine ⟨htimestamp, ⟨hftype ▸ htype t₀ _ ht₀ hname, ?_⟩, hftype ▸ n.msgType.property, ?_⟩
    · rw [hpayload]
      cases hlookup : docField (.obj fields) "payload" with
      | none => exact ⟨⟨[], rfl⟩, .obj trivial nofun⟩
      | some p =>
        obtain ⟨hobj, hevery⟩ := hp p hlookup
        exact ⟨hobj, hevery.mono (fun _ h => h) fun _ _ => trivial⟩
    · rw [hpayload]
      cases hlookup : docField (.obj fields) "payload" with
      | none => exact .obj nofun nofun
      | some p =>
        obtain ⟨-, hevery⟩ := hp p hlookup
        exact hevery.mono (fun _ _ => trivial) fun _ h => h

/-- For every text: both programs sign the same bytes for it, and a message read
from it keeps them when it is written and read again by either, exactly as the
text writes its fields. -/
theorem signedBytes_agree_iff (hS : S.RoundTrips) (now : FiniteF64) {raw : String} {d : Doc}
    (hd : J.read raw = some d) :
    (∀ m n, Client.Protocol.SignalingMessage.fromJson S J now raw = some m →
        Supernode.Protocol.SignalingMessage.fromJson S J raw = some n →
          (m.canonicalBytes S = n.canonicalBytes S ↔ WrittenAlike S J now d)) ∧
      (∀ m, Client.Protocol.SignalingMessage.fromJson S J now raw = some m →
        (KeptByBoth S J (m.toJson S) (m.canonicalBytes S) ↔ ClientTextKept d)) ∧
      ∀ n, Supernode.Protocol.SignalingMessage.fromJson S J raw = some n →
        (KeptByBoth S J (n.toJson S) (n.canonicalBytes S) ↔ SupernodeTextKept S J d) := by
  have hclient : Client.Protocol.SignalingMessage.fromJson S J now raw =
      Client.Protocol.SignalingMessage.fromDoc S now d := by
    rw [Client.Protocol.SignalingMessage.fromJson, hd, Option.bind_some]
  have hsupernode : Supernode.Protocol.SignalingMessage.fromJson S J raw =
      Supernode.Protocol.SignalingMessage.fromDoc S J d := by
    rw [Supernode.Protocol.SignalingMessage.fromJson, hd, Option.bind_some]
  rw [hclient, hsupernode]
  exact ⟨fun m n hm hn => canonicalBytes_eq_iff hS hm hn, fun m hm => client_kept_iff hS hm,
    fun n hn => supernode_kept_iff hS hn⟩

/-! ## Two pings -/

open Classical in
/-- The reader of compact texts. -/
noncomputable def compactSyntax : JsonSyntax where
  read text := if h : ∃ d, docText d = text then some h.choose else none
  read_print d := by
    have hex : ∃ e, docText e = docText d := ⟨d, rfl⟩
    rw [← docText, dif_pos hex, docText_injective hex.choose_spec]

/-- A ping of Alice's with the given timestamp. -/
def pingFields (timestamp : Literal) : List (String × Doc) :=
  [("type", .str "ping"), ("sender", .str alice.text), ("timestamp", .num timestamp)]

def pingDoc (timestamp : Literal) : Doc :=
  .obj (pingFields timestamp)

theorem client_reads_ping {l : Literal} {x : FiniteF64} (hx : sampleRead l = some x) :
    ∃ m, Client.Protocol.SignalingMessage.fromDoc FloatSyntax.sample F64.zero (pingDoc l) =
      some m := by
  let m : Client.Protocol.SignalingMessage := {
    msgType := .ping, sender := alice.text, payload := [], timestamp := x.val, target := none
    signature := none, protocolVersion := 2 }
  exact ⟨m, client_fromDoc_iff.mpr ⟨pingFields l, rfl, rfl,
    ⟨_, rfl, rfl⟩, rfl, rfl, ⟨x, hx, rfl⟩, rfl, rfl, rfl⟩⟩

theorem supernode_reads_ping (J : JsonSyntax) (l : Literal) :
    ∃ n, Supernode.Protocol.SignalingMessage.fromDoc FloatSyntax.sample J (pingDoc l) = some n := by
  have hread : mapFields (readRaw J numberKey (payloadDepth + 1)) (pingFields l) =
      mapFields some (pingFields l) := by
    simp [pingFields]
  have hfirst : ¬NumberFirst numberKey (pingFields l) :=
    fun h => absurd (show "type" = numberKey from Option.some.inj h) (by decide)
  have htype : (sortFields (pingFields l)).lookup "type" = some (.str "ping") := by
    rw [lookup_sortFields]
    rfl
  obtain ⟨n, hn⟩ : ∃ n, SupernodeReads FloatSyntax.sample (sortFields (pingFields l)) n :=
    ⟨⟨⟨"ping", by decide⟩, _, _, _, _, _, _, _⟩, ⟨_, htype, rfl⟩, rfl, rfl, rfl, rfl, rfl, rfl, rfl⟩
  exact ⟨n, supernode_fromDoc_iff.mpr
    ⟨pingFields l, pingFields l, rfl, hfirst, hread, supernode_fromFields_iff.mpr hn⟩⟩

/-- Both sign the same bytes for a ping whose timestamp is `1.0`. -/
theorem signedBytes_agree_onePointZero :
    ∃ m n, Client.Protocol.SignalingMessage.fromJson FloatSyntax.sample compactSyntax F64.zero
        (docText (pingDoc Literal.onePointZero)) = some m ∧
      Supernode.Protocol.SignalingMessage.fromJson FloatSyntax.sample compactSyntax
        (docText (pingDoc Literal.onePointZero)) = some n ∧
      m.canonicalBytes FloatSyntax.sample = n.canonicalBytes FloatSyntax.sample := by
  obtain ⟨m, hm⟩ := client_reads_ping (l := Literal.onePointZero) (x := F64.one) rfl
  obtain ⟨n, hn⟩ := supernode_reads_ping compactSyntax Literal.onePointZero
  rw [← client_fromJson_docText (J := compactSyntax)] at hm
  rw [← supernode_fromJson_docText] at hn
  refine ⟨m, n, hm, hn, ((signedBytes_agree_iff FloatSyntax.sample_roundTrips F64.zero
    (compactSyntax.read_print _)).1 m n hm hn).mpr ⟨?_, nofun, nofun⟩⟩
  intro t ht
  exact ⟨F64.one, (Option.some.inj ht).symm⟩

/-- A ping whose timestamp is the whole number `1` is signed as `1.0` by the client
and as `1` by the supernode. -/
theorem signedBytes_differ_one :
    ∃ m n, Client.Protocol.SignalingMessage.fromJson FloatSyntax.sample compactSyntax F64.zero
        (docText (pingDoc (.ofInt 1))) = some m ∧
      Supernode.Protocol.SignalingMessage.fromJson FloatSyntax.sample compactSyntax
        (docText (pingDoc (.ofInt 1))) = some n ∧
      m.canonicalBytes FloatSyntax.sample ≠ n.canonicalBytes FloatSyntax.sample := by
  obtain ⟨m, hm⟩ := client_reads_ping (l := .ofInt 1) (x := F64.one) rfl
  obtain ⟨n, hn⟩ := supernode_reads_ping compactSyntax (.ofInt 1)
  have hdiffer := canonicalBytes_eq_iff FloatSyntax.sample_roundTrips hm hn
  rw [← client_fromJson_docText (J := compactSyntax)] at hm
  rw [← supernode_fromJson_docText] at hn
  refine ⟨m, n, hm, hn, fun h => ?_⟩
  obtain ⟨x, hx⟩ := (hdiffer.mp h).timestamp (.num (.ofInt 1)) rfl
  have hwhole := congrArg Literal.isWhole (Value.num.inj hx)
  rw [Literal.isWhole_ofInt, FloatSyntax.sample.text_notWhole] at hwhole
  cases hwhole

end ConquerD.Interop
