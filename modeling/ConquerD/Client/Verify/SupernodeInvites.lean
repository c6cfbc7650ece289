import ConquerD.Client.InviteLink
import ConquerD.Interop.SignedBytes
import ConquerD.Supernode.Invite

/-!
# Supernode invites: signature and round trip

Accepting an invite never looks at its signature, so what a link says of a
supernode is believed of whoever wrote the link; acceptance is as good as the
link where every supernode payload that passes the checks was signed by the
inviter. In the other direction a minted link is accepted as minted, but the
manager makes one from the saved file only when the invite names a handle and
TURN hints.
-/

namespace ConquerD.Client

open Lib.Encoding Lib.JsonText Wire
open ConquerD.Supernode (InviteSource InviteDraw ManagerInvite savedInvite
  buildConquerdInviteUrl structFieldsOf optionalField boolValue? textsValue? i64Value? u64Value?)

variable {S : FloatSyntax FiniteF64} {J : JsonSyntax} {env : Env} {c : ConnectionManager}

/-! ## Fields of a value -/

/-- The field of an object. -/
def valueGet? (v : SerdeValue) (k : String) : Option SerdeValue :=
  match v with
  | .obj fields => fields.lookup k
  | _ => none

theorem lookup_ofFields (fields : List (String × SerdeValue)) (k : String) :
    (Json.ofFields S fields).lookup k = (fields.lookup k).map (Json.ofValue S) := by
  induction fields with
  | nil => rfl
  | cons e fields ih =>
    obtain ⟨name, v⟩ := e
    rw [Json.ofFields, lookup_cons_ite, lookup_cons_ite, ih]
    split <;> rfl

theorem get?_ofValue (v : SerdeValue) (k : String) :
    (Json.ofValue S v).get? k = (valueGet? v k).map (Json.ofValue S) := by
  cases v with
  | num n => cases n <;> rfl
  | obj fields => exact lookup_ofFields fields k
  | _ => rfl

theorem asStr?_ofValue (v : SerdeValue) : (Json.ofValue S v).asStr? = valueStr? v := by
  cases v with
  | num n => cases n <;> rfl
  | _ => rfl

theorem asBool?_ofValue (v : SerdeValue) : (Json.ofValue S v).asBool? = boolValue? v := by
  cases v with
  | num n => cases n <;> rfl
  | _ => rfl

theorem str?_ofValue (v : SerdeValue) (k : String) :
    (Json.ofValue S v).str? k = (valueGet? v k).bind valueStr? := by
  rw [Json.str?, get?_ofValue, Option.bind_map]
  exact Option.bind_congr fun w _ => asStr?_ofValue w

theorem bool?_ofValue (v : SerdeValue) (k : String) :
    ((Json.ofValue S v).get? k).bind Json.asBool? = (valueGet? v k).bind boolValue? := by
  rw [get?_ofValue, Option.bind_map]
  exact Option.bind_congr fun w _ => asBool?_ofValue w

theorem bind_of_optionalField {α : Type} {read : SerdeValue → Option α} {v : Option SerdeValue}
    {o : Option α} (hnull : read .null = none) (h : optionalField read v = some o) :
    v.bind read = o := by
  cases v with
  | none => exact Option.some.inj h
  | some v =>
    rw [Option.bind_some]
    cases v with
    | null =>
      rw [hnull]
      exact Option.some.inj h
    | _ =>
      obtain ⟨a, ha, rfl⟩ := Option.map_eq_some_iff.mp h
      exact ha

/-! ## The fields of a payload -/

/-- What acceptance uses of an invite. -/
def fieldsOf (inv : Supernode.InvitePayload) : InviteFields where
  inviterIdentityPub := inv.inviterIdentityPub
  inviterPeerId := inv.inviterPeerId
  inviteId := inv.inviteId
  relayHint := inv.relayHint.getD ""
  lanHint := inv.lanHint.getD ""
  inviterHandle := inv.inviterHandle.getD ""
  isSupernode := inv.isSupernode.getD false
  expiresAt := some inv.expiresAt.toInt

theorem asI64?_ofValue {v : SerdeValue} {n : Int64} (h : i64Value? v = some n) :
    (Json.ofValue S v).asI64? = some n.toInt := by
  cases v with
  | num x =>
    cases x with
    | float x => cases h
    | int m hm =>
      rw [i64Value?] at h
      split at h
      · next hlt =>
        have hn : Int64.ofInt m = n := Option.some.inj h
        have htoInt : n.toInt = m := by
          rw [← hn]
          exact Int64.toInt_ofInt_of_le (by have := hm.1; omega) hlt
        rw [Json.ofValue, Json.asI64?, if_pos ⟨hm.1, hlt⟩, htoInt]
      · cases h
  | _ => cases h

theorem read_of_fromValue {v : SerdeValue} {inv : Supernode.InvitePayload} {f : InviteFields}
    (hread : InviteFields.read (Json.ofValue S v) = some f)
    (h : Supernode.InvitePayload.fromValue v = some inv) : f = fieldsOf inv := by
  obtain ⟨identity, hidentity, rfl⟩ := Option.map_eq_some_iff.mp hread
  -- only an object has an identity
  rw [str?_ofValue] at hidentity
  cases v with
  | obj fields =>
    unfold Supernode.InvitePayload.fromValue at h
    obtain ⟨all, hall, h⟩ := Option.bind_eq_some_iff.mp h
    obtain rfl : fields = all := Option.some.inj hall
    obtain ⟨peerId, hpeerId, h⟩ := Option.bind_eq_some_iff.mp h
    obtain ⟨identity', hidentity', h⟩ := Option.bind_eq_some_iff.mp h
    obtain ⟨inviteId, hinviteId, h⟩ := Option.bind_eq_some_iff.mp h
    obtain ⟨expiresAt, hexpiresAt, h⟩ := Option.bind_eq_some_iff.mp h
    obtain ⟨ephemeral, -, h⟩ := Option.bind_eq_some_iff.mp h
    obtain ⟨relayHint, hrelayHint, h⟩ := Option.bind_eq_some_iff.mp h
    obtain ⟨handle, hhandle, h⟩ := Option.bind_eq_some_iff.mp h
    obtain ⟨punch, -, h⟩ := Option.bind_eq_some_iff.mp h
    obtain ⟨lanHint, hlanHint, h⟩ := Option.bind_eq_some_iff.mp h
    obtain ⟨isSupernode, hisSupernode, h⟩ := Option.bind_eq_some_iff.mp h
    obtain ⟨info, -, h⟩ := Option.bind_eq_some_iff.mp h
    obtain ⟨relays, -, h⟩ := Option.bind_eq_some_iff.mp h
    obtain ⟨stun, -, h⟩ := Option.bind_eq_some_iff.mp h
    obtain ⟨turn, -, h⟩ := Option.bind_eq_some_iff.mp h
    obtain ⟨signature, -, h⟩ := Option.bind_eq_some_iff.mp h
    obtain rfl := Option.some.inj h
    have hexpires : ((Json.ofValue S (.obj fields)).get? "expires_at").bind Json.asI64? =
        some expiresAt.toInt := by
      obtain ⟨w, hw, hn⟩ := Option.bind_eq_some_iff.mp hexpiresAt
      rw [get?_ofValue]
      change ((fields.lookup "expires_at").map _).bind _ = _
      rw [hw, Option.map_some, Option.bind_some, asI64?_ofValue hn]
    obtain rfl : identity = identity' := Option.some.inj (hidentity.symm.trans hidentity')
    have hrelay := bind_of_optionalField rfl hrelayHint
    have hname := bind_of_optionalField rfl hhandle
    have hlan := bind_of_optionalField rfl hlanHint
    have hflag := bind_of_optionalField rfl hisSupernode
    simp only [fieldsOf, str?_ofValue, bool?_ofValue, hexpires]
    simp only [valueGet?, hpeerId, hinviteId, hrelay, hname, hlan, hflag, Option.getD_some]
  | _ => cases hidentity

/-! ## Authentication -/

section Authentication

variable (S J) (P : Platform)

/-- The payload says that it is a supernode's. -/
def IsSupernodeInvite (payload : SerdeValue) : Prop :=
  ((Json.ofValue S payload).get? "is_supernode").bind Json.asBool? = some true

/-- The payload carries a signature of its inviter over its fields. -/
def SignedByInviter (payload : SerdeValue) : Prop :=
  ∃ inv, Supernode.InvitePayload.fromValue payload = some inv ∧ inv.verify S P = true

/-- Whatever accepting a supernode's invite does under an identity, that identity
has signed the fields it is done with. -/
def OnlySigned (env : Env) (c : ConnectionManager) (url : String) : Prop :=
  ∀ payload, invitePayload? S J url = some payload → IsSupernodeInvite S payload →
    ∀ e ∈ acceptEffects S J env c url,
      ∃ inv, Supernode.InvitePayload.fromValue payload = some inv ∧ inv.verify S P = true ∧
        inv.inviterIdentityPub = e.identity ∧
        InviteFields.read (Json.ofValue S payload) = some (fieldsOf inv)

def PassesOnlySigned (env : Env) (c : ConnectionManager) (url : String) : Prop :=
  ∀ payload f, invitePayload? S J url = some payload → IsSupernodeInvite S payload →
    InviteFields.read (Json.ofValue S payload) = some f → f.Acceptable env c.publicId →
    SignedByInviter S P payload

variable {S J P}

theorem mem_inviteEffects_iff {publicId : String} {payload : Json} {e : InviteEffect} :
    e ∈ inviteEffects env publicId payload ↔
      ∃ f, InviteFields.read payload = some f ∧ f.Acceptable env publicId ∧ e ∈ f.effects env := by
  rw [inviteEffects]
  cases InviteFields.read payload with
  | none => simp
  | some f =>
    by_cases hf : f.Acceptable env publicId
    · simp [hf]
    · simp [hf]

theorem onlySigned_iff {url : String} :
    OnlySigned S J P env c url ↔ PassesOnlySigned S J P env c url := by
  constructor
  · intro h payload f hpayload hflag hread haccept
    -- the inviter is always expected to answer
    have hmem : .pend (f.pendingInvite env) ∈ acceptEffects S J env c url := by
      rw [acceptEffects_of_invite hpayload, mem_inviteEffects_iff]
      exact ⟨f, hread, haccept, by simp [InviteFields.effects]⟩
    obtain ⟨inv, hinv, hverify, -⟩ := h payload hpayload hflag _ hmem
    exact ⟨inv, hinv, hverify⟩
  · intro h payload hpayload hflag e he
    rw [acceptEffects_of_invite hpayload, mem_inviteEffects_iff] at he
    obtain ⟨f, hread, haccept, he⟩ := he
    obtain ⟨inv, hinv, hverify⟩ := h payload f hpayload hflag hread haccept
    have hfields : f = fieldsOf inv := read_of_fromValue hread hinv
    refine ⟨inv, hinv, hverify, ?_, hread.trans (congrArg some hfields)⟩
    rw [f.identity_of_mem_effects env he, hfields]
    rfl

end Authentication

/-! ## Links and what they decode to -/

/-- The link with the given fields as its payload. -/
def linkOf (S : FloatSyntax FiniteF64) (fields : List (String × SerdeValue)) : String :=
  AppUrl.mintInviteHttps "invite"
    (b64UrlEncode (utf8Bytes (docText (.obj (mapFields (toDoc S) fields)))))

/-- The number of bytes of the payload. -/
def payloadSize (S : FloatSyntax FiniteF64) (fields : List (String × SerdeValue)) : Nat :=
  (utf8Bytes (docText (.obj (mapFields (toDoc S) fields)))).length

theorem docText_obj_ne_nil (fields : List (String × Doc)) : utf8Bytes (docText (.obj fields)) ≠ [] := by
  intro h
  have hempty : docText (.obj fields) = "" := utf8Bytes_injective h
  have hlist := congrArg String.toList hempty
  rw [docText, String.toList_ofList, print] at hlist
  cases hlist

theorem parseLink_linkOf (fields : List (String × SerdeValue)) :
    parseLink (linkOf S fields) = some ("invite",
      b64UrlEncode (utf8Bytes (docText (.obj (mapFields (toDoc S) fields))))) := by
  have hne := AppUrl.b64UrlEncode_ne_empty (docText_obj_ne_nil (mapFields (toDoc S) fields))
  rw [parseLink, linkOf, AppUrl.normalizeAppUrl_mint hne, Option.map_some, AppUrl.splitAction_invite]

theorem bare_b64UrlEncode (bs : Bytes) : bare (b64UrlEncode bs) = b64UrlEncode bs :=
  Lib.Text.trimEndMatches_of_notMem (pad_notMem_b64UrlEncode bs)

theorem invitePayload?_linkOf {fields : List (String × SerdeValue)}
    (hread : ∀ e ∈ fields, readValue (Number.ofLiteral S) 126 (toDoc S e.2) = some e.2) :
    invitePayload? S J (linkOf S fields) =
      if payloadSize S fields ≤ 196608 then some (.obj (sortFields fields)) else none := by
  have hdoc : readValue (Number.ofLiteral S) jsonDepth (.obj (mapFields (toDoc S) fields)) =
      some (.obj (sortFields fields)) := by
    have hfields : readFields (readValue (Number.ofLiteral S) 126) (mapFields (toDoc S) fields) =
        some fields := by
      rw [readFields_eq_some_iff, mapFields_mapFields]
      exact mapFields_congr hread
    rw [jsonDepth, readValue, hfields, Option.map_some]
  have hsize := AppUrl.utf8ByteSize_b64UrlEncode
    (utf8Bytes (docText (.obj (mapFields (toDoc S) fields))))
  rw [← payloadSize] at hsize
  simp only [invitePayload?, parseLink_linkOf, Option.bind_eq_bind, Option.bind_some]
  rw [if_neg (by decide), decodePayload]
  by_cases hle : payloadSize S fields ≤ 196608
  · have hshort : ¬ (b64UrlEncode (utf8Bytes (docText (.obj (mapFields (toDoc S) fields))))).utf8ByteSize
        > 262144 := by omega
    have htext : J.read (docText (.obj (mapFields (toDoc S) fields))) =
        some (.obj (mapFields (toDoc S) fields)) := J.read_print _
    rw [if_pos hle, if_neg hshort]
    simp only [bare_b64UrlEncode, b64UrlDecode_b64UrlEncode, fromUtf8_utf8Bytes,
      Option.bind_eq_bind, Option.bind_some, htext, hdoc]
  · have hlong : (b64UrlEncode (utf8Bytes (docText (.obj (mapFields (toDoc S) fields))))).utf8ByteSize
        > 262144 := by omega
    rw [if_neg hle, if_pos hlong]
    rfl

/-! ## The fields of an invite, written and read -/

section Written

open Supernode.InvitePayload (present texts)

theorem reverse_present (name : String) (v : Option SerdeValue) :
    (present name v).reverse = present name v := by
  cases v <;> rfl

theorem lookup_present (name : String) (v : Option SerdeValue) (k : String) :
    (present name v).lookup k = if k = name then v else none := by
  cases v with
  | none => simp [present]
  | some v =>
    change [(name, v)].lookup k = _
    rw [lookup_cons_ite, List.lookup_nil]

theorem valueGet?_toValue (inv : Supernode.InvitePayload) (k : String) :
    valueGet? inv.toValue k = inv.jsonFields.reverse.lookup k :=
  lookup_sortFields inv.jsonFields k

variable (inv : Supernode.InvitePayload)

/-- The fields that both readers look for. -/
structure WrittenFields (v : SerdeValue) : Prop where
  peerId : valueGet? v "inviter_peer_id" = some (.str inv.inviterPeerId)
  identityPub : valueGet? v "inviter_identity_pub" = some (.str inv.inviterIdentityPub)
  inviteId : valueGet? v "invite_id" = some (.str inv.inviteId)
  expiresAt : valueGet? v "expires_at" = some inv.expiresAtValue
  ephemeralPub : valueGet? v "inviter_ephemeral_pub" = some (.str inv.inviterEphemeralPub)
  relayHint : valueGet? v "relay_hint" = inv.relayHint.map .str
  handle : valueGet? v "inviter_handle" = inv.inviterHandle.map .str
  lanHint : valueGet? v "lan_hint" = inv.lanHint.map .str
  isSupernode : valueGet? v "is_supernode" = inv.isSupernode.map .bool
  turnHints : valueGet? v "turn_hints" = inv.turnHints.map texts
  signature : valueGet? v "signature" = inv.signature.map .str

theorem writtenFields_toValue : WrittenFields inv inv.toValue := by
  constructor <;>
  · rw [valueGet?_toValue]
    simp [Supernode.InvitePayload.jsonFields, reverse_present, List.lookup_append, lookup_present,
      lookup_cons_ite]

theorem bind_map_str (o : Option String) :
    (o.map (Value.str : String → SerdeValue)).bind valueStr? = o := by
  cases o <;> rfl

theorem asI64?_expiresAtValue :
    (Json.ofValue S inv.expiresAtValue).asI64? = some inv.expiresAt.toInt :=
  if_pos ⟨inv.expiresAt.le_toInt, inv.expiresAt.toInt_lt⟩

theorem read_toValue : InviteFields.read (Json.ofValue S inv.toValue) = some (fieldsOf inv) := by
  have h := writtenFields_toValue inv
  have hexpires : ((Json.ofValue S inv.toValue).get? "expires_at").bind Json.asI64? =
      some inv.expiresAt.toInt := by
    rw [get?_ofValue, h.expiresAt, Option.map_some, Option.bind_some, asI64?_expiresAtValue]
  have hflag : (inv.isSupernode.map (Value.bool : Bool → SerdeValue)).bind boolValue? =
      inv.isSupernode := by
    cases inv.isSupernode <;> rfl
  have hpeer : ((some (.str inv.inviterPeerId) : Option SerdeValue)).bind valueStr? =
      some inv.inviterPeerId := rfl
  have hid : ((some (.str inv.inviteId) : Option SerdeValue)).bind valueStr? =
      some inv.inviteId := rfl
  have hidentity : ((some (.str inv.inviterIdentityPub) : Option SerdeValue)).bind valueStr? =
      some inv.inviterIdentityPub := rfl
  simp only [InviteFields.read, str?_ofValue, bool?_ofValue, hexpires, h.peerId, h.identityPub,
    h.inviteId, h.relayHint, h.handle, h.lanHint, h.isSupernode, bind_map_str, hflag, hpeer, hid,
    hidentity, Option.map_some, Option.getD_some, fieldsOf]

theorem textsValue?_texts (hints : List String) :
    Supernode.textsValue? (texts hints) = some hints := by
  change (hints.map (Value.str : String → SerdeValue)).mapM valueStr? = some hints
  rw [mapM_eq_some_iff, List.map_map]
  rfl

theorem readValue_jsonFields (hinfo : inv.supernodeInfo = none) :
    ∀ e ∈ inv.jsonFields, readValue (Number.ofLiteral S) 126 (toDoc S e.2) = some e.2 := by
  have hexpires : readValue (Number.ofLiteral S) 126 (toDoc S inv.expiresAtValue) =
      some inv.expiresAtValue := by
    have hfits := Supernode.InvitePayload.fits64_int64 inv.expiresAt
    simp [Supernode.InvitePayload.expiresAtValue, toDoc, Number.toLiteral, Number.ofLiteral,
      Number.ofInt?, hfits]
  have htexts : ∀ hints : List String,
      readValue (Number.ofLiteral S) 126 (toDoc S (texts hints)) = some (texts hints) := by
    intro hints
    have hitems : (hints.map (Value.str : String → Doc)).mapM
        (readValue (Number.ofLiteral S) 125) = some (hints.map (Value.str)) := by
      rw [mapM_eq_some_iff, List.map_map, List.map_map]
      exact List.map_congr_left fun s _ => readValue_str _ _ s
    rw [toDoc, texts, Value.map_arr, List.map_map]
    exact congrArg (Option.map Value.arr) hitems
  have hpresent : ∀ (name : String) (v : Option SerdeValue),
      (∀ w, v = some w → readValue (Number.ofLiteral S) 126 (toDoc S w) = some w) →
      ∀ e ∈ present name v, readValue (Number.ofLiteral S) 126 (toDoc S e.2) = some e.2 := by
    intro name v h e he
    cases v with
    | none => cases he
    | some w =>
      rw [List.mem_singleton.mp he]
      exact h w rfl
  have hstrs : ∀ (o : Option String) w, o.map Value.str = some w →
      readValue (Number.ofLiteral S) 126 (toDoc S w) = some w := by
    intro o w hw
    obtain ⟨s, -, rfl⟩ := Option.map_eq_some_iff.mp hw
    rfl
  have hlists : ∀ (o : Option (List String)) w, o.map texts = some w →
      readValue (Number.ofLiteral S) 126 (toDoc S w) = some w := by
    intro o w hw
    obtain ⟨hints, -, rfl⟩ := Option.map_eq_some_iff.mp hw
    exact htexts hints
  have hflag : ∀ w, inv.isSupernode.map Value.bool = some w →
      readValue (Number.ofLiteral S) 126 (toDoc S w) = some w := by
    intro w hw
    obtain ⟨b, -, rfl⟩ := Option.map_eq_some_iff.mp hw
    rfl
  simp only [Supernode.InvitePayload.jsonFields, List.forall_mem_append, hinfo]
  refine ⟨⟨⟨⟨⟨⟨⟨⟨⟨⟨?_, hpresent _ _ (hstrs _)⟩, hpresent _ _ (hstrs _)⟩, hpresent _ _ (hstrs _)⟩,
    hpresent _ _ (hstrs _)⟩, hpresent _ _ hflag⟩, hpresent _ _ fun w hw => by cases hw⟩, hpresent _ _ (hlists _)⟩,
    hpresent _ _ (hlists _)⟩, hpresent _ _ (hlists _)⟩, hpresent _ _ (hstrs _)⟩
  simp only [List.forall_mem_cons]
  exact ⟨rfl, rfl, rfl, hexpires, rfl, fun w hw => by cases hw⟩

/-! ## The manager's record -/

/-- The manager reads a written invite when the fields it needs are there. -/
theorem managerInvite_fromValue :
    ManagerInvite.fromValue inv.toValue = (do
      let expiresAt ← u64Value? inv.expiresAtValue
      let relayHint ← inv.relayHint
      let inviterHandle ← inv.inviterHandle
      let isSupernode ← inv.isSupernode
      let turnHints ← inv.turnHints
      let signature ← inv.signature
      some ⟨inv.inviterPeerId, inv.inviterIdentityPub, inv.inviteId, expiresAt,
        inv.inviterEphemeralPub, relayHint, inviterHandle, isSupernode, turnHints, signature⟩) := by
  have h := writtenFields_toValue inv
  have hobj : structFieldsOf ManagerInvite.fieldNames inv.toValue =
      some (sortFields inv.jsonFields) := rfl
  have hget : ∀ k v, valueGet? inv.toValue k = v → (sortFields inv.jsonFields).lookup k = v :=
    fun _ _ h => h
  have hflag : (inv.isSupernode.map (Value.bool : Bool → SerdeValue)).bind boolValue? =
      inv.isSupernode := by
    cases inv.isSupernode <;> rfl
  have hturn : (inv.turnHints.map texts).bind textsValue? = inv.turnHints := by
    cases inv.turnHints with
    | none => rfl
    | some hints => exact textsValue?_texts hints
  have hstr : ∀ s : String, (some (Value.str s : SerdeValue)).bind valueStr? = some s := fun _ => rfl
  rw [ManagerInvite.fromValue, hobj]
  simp only [Option.bind_eq_bind, Option.bind_some, hget _ _ h.peerId, hget _ _ h.identityPub,
    hget _ _ h.inviteId, hget _ _ h.expiresAt, hget _ _ h.ephemeralPub, hget _ _ h.relayHint,
    hget _ _ h.handle, hget _ _ h.isSupernode, hget _ _ h.turnHints, hget _ _ h.signature,
    bind_map_str, hflag, hturn, hstr]

theorem buildConquerdInviteUrl_eq_bind (secret : Bytes) :
    buildConquerdInviteUrl (savedInvite inv secret) =
      (ManagerInvite.fromValue inv.toValue).bind fun payload =>
        some ("https://doubleslash.space/i#" ++
          b64UrlEncode (utf8Bytes (docText (.obj payload.jsonFields)))) := by
  have hother : ("invite" == "ephemeral_secret") = false := by decide
  have hinvite : List.lookup "invite" [("ephemeral_secret", .str (b64UrlEncode secret)),
      ("invite", inv.toValue)] = some inv.toValue := by
    rw [List.lookup_cons, hother, List.lookup_cons_self]
  simp only [buildConquerdInviteUrl, savedInvite, hinvite, Option.bind_eq_bind, Option.bind_some]

/-- The manager makes the very link that the supernode prints, given that the
fields it needs are there and those it does not know are not. -/
theorem buildConquerdInviteUrl_savedInvite {relayHint handle signature : String} {flag : Bool}
    {turn : List String} (secret : Bytes) (hrelay : inv.relayHint = some relayHint)
    (hhandle : inv.inviterHandle = some handle) (hpunch : inv.udpHolePunchHint = none)
    (hlan : inv.lanHint = none) (hflag : inv.isSupernode = some flag)
    (hinfo : inv.supernodeInfo = none) (hrelays : inv.supernodeRelayHints = none)
    (hstun : inv.stunHints = none) (hturn : inv.turnHints = some turn)
    (hsignature : inv.signature = some signature) (hexpires : 0 ≤ inv.expiresAt.toInt) :
    buildConquerdInviteUrl (savedInvite inv secret) = some (inv.toUri S) := by
  have hu64 : u64Value? inv.expiresAtValue = some inv.expiresAt.toInt.toNat := if_pos hexpires
  have hnumber : ((inv.expiresAt.toInt.toNat : Nat) : Int) = inv.expiresAt.toInt :=
    Int.toNat_of_nonneg hexpires
  have htexts : toDoc S (texts turn) = .arr (turn.map .str) := by
    rw [toDoc, texts, Value.map_arr, List.map_map]
    rfl
  rw [buildConquerdInviteUrl_eq_bind, managerInvite_fromValue]
  simp only [hu64, hrelay, hhandle, hflag, hturn, hsignature, Option.bind_eq_bind, Option.bind_some]
  have hfields : (⟨inv.inviterPeerId, inv.inviterIdentityPub, inv.inviteId,
      inv.expiresAt.toInt.toNat, inv.inviterEphemeralPub, relayHint, handle, flag, turn,
      signature⟩ : ManagerInvite).jsonFields = mapFields (toDoc S) inv.jsonFields := by
    simp only [Supernode.InvitePayload.jsonFields, hrelay, hhandle, hpunch, hlan, hflag, hinfo,
      hrelays, hstun, hturn, hsignature, ManagerInvite.jsonFields, hnumber]
    simp only [present, Option.map_some, Option.map_none, Option.toList_some, Option.toList_none,
      List.cons_append, List.nil_append, List.append_nil, mapFields_cons, mapFields_nil, htexts]
    rfl
  rw [hfields]
  rfl

theorem buildConquerdInviteUrl_of_none (secret : Bytes)
    (h : inv.inviterHandle = none ∨ inv.turnHints = none) :
    buildConquerdInviteUrl (savedInvite inv secret) = none := by
  have hnone : ManagerInvite.fromValue inv.toValue = none := by
    rw [managerInvite_fromValue, Option.eq_none_iff_forall_ne_some]
    intro m hm
    obtain ⟨expiresAt, -, hm⟩ := Option.bind_eq_some_iff.mp hm
    obtain ⟨relayHint, -, hm⟩ := Option.bind_eq_some_iff.mp hm
    obtain ⟨handle, hhandle, hm⟩ := Option.bind_eq_some_iff.mp hm
    obtain ⟨flag, -, hm⟩ := Option.bind_eq_some_iff.mp hm
    obtain ⟨turn, hturn, hm⟩ := Option.bind_eq_some_iff.mp hm
    rcases h with h | h
    · cases h.symm.trans hhandle
    · cases h.symm.trans hturn
  rw [buildConquerdInviteUrl_eq_bind, hnone, Option.bind_none]

end Written

/-! ## Minted invites -/

section Minted

variable (S J) (mint : InviteSource) (handle : Option String) (draw : InviteDraw)

/-- Accepting the link does what the invite's own fields say. -/
def AcceptedAs (env : Env) (c : ConnectionManager) (url : String)
    (inv : Supernode.InvitePayload) : Prop :=
  acceptEffects S J env c url = (fieldsOf inv).effects env

/-- Unless it has expired, the invite is accepted as minted, from the printed link
and from the one that the manager makes from the saved file. -/
def LinksAccepted (env : Env) (c : ConnectionManager) (inv : Supernode.InvitePayload)
    (ephemeralSecret : Bytes) : Prop :=
  (env.nowSecs : Int) ≤ inv.expiresAt.toInt →
    AcceptedAs S J env c (inv.toUri S) inv ∧
      ∃ url, buildConquerdInviteUrl (savedInvite inv ephemeralSecret) = some url ∧
        AcceptedAs S J env c url inv

/-- Unless it has expired, the invite is another's, its payload is short enough,
and it names a handle and TURN hints. -/
def Linkable (env : Env) (c : ConnectionManager) (inv : Supernode.InvitePayload) : Prop :=
  (env.nowSecs : Int) ≤ inv.expiresAt.toInt →
    inv.inviterIdentityPub ≠ c.publicId ∧ payloadSize S inv.jsonFields ≤ 196608 ∧
      inv.inviterHandle ≠ none ∧ inv.turnHints ≠ none

variable {S J mint handle draw}

theorem hexEncode_ne_empty {bs : Bytes} (h : bs ≠ []) : hexEncode bs ≠ "" := by
  intro hempty
  have hlist := congrArg String.toList hempty
  rw [hexEncode, String.toList_ofList] at hlist
  cases bs with
  | nil => exact h rfl
  | cons b bs => cases hlist

theorem inviteId_createInvite : (mint.createInvite S handle draw).inviteId ≠ "" := by
  refine hexEncode_ne_empty fun h => ?_
  have hlength := draw.nonce.property
  rw [h] at hlength
  cases hlength

theorem acceptable_createInvite_iff
    (hnow : (env.nowSecs : Int) ≤ (mint.createInvite S handle draw).expiresAt.toInt) :
    (fieldsOf (mint.createInvite S handle draw)).Acceptable env c.publicId ↔
      (mint.createInvite S handle draw).inviterIdentityPub ≠ c.publicId := by
  have hexpired : (fieldsOf (mint.createInvite S handle draw)).expired env = false := by
    change decide (_ < _) = false
    rw [decide_eq_false_iff_not]
    omega
  have hid : (mint.createInvite S handle draw).inviteId ≠ "" := inviteId_createInvite
  exact ⟨fun h => h.2.1, fun h => ⟨hid, h, hexpired⟩⟩

theorem effects_ne_nil (f : InviteFields) : f.effects env ≠ [] := by
  simp [InviteFields.effects]

theorem acceptedAs_toUri_iff
    (hnow : (env.nowSecs : Int) ≤ (mint.createInvite S handle draw).expiresAt.toInt) :
    AcceptedAs S J env c ((mint.createInvite S handle draw).toUri S)
        (mint.createInvite S handle draw) ↔
      (mint.createInvite S handle draw).inviterIdentityPub ≠ c.publicId ∧
        payloadSize S (mint.createInvite S handle draw).jsonFields ≤ 196608 := by
  have hdecode : invitePayload? S J ((mint.createInvite S handle draw).toUri S) =
      if payloadSize S (mint.createInvite S handle draw).jsonFields ≤ 196608 then
        some (mint.createInvite S handle draw).toValue else none :=
    invitePayload?_linkOf (readValue_jsonFields _ rfl)
  rw [← acceptable_createInvite_iff hnow]
  by_cases hsize : payloadSize S (mint.createInvite S handle draw).jsonFields ≤ 196608
  · rw [if_pos hsize] at hdecode
    rw [and_iff_left hsize, AcceptedAs, acceptEffects_of_invite hdecode, inviteEffects,
      read_toValue]
    by_cases haccept : (fieldsOf (mint.createInvite S handle draw)).Acceptable env c.publicId
    · exact iff_of_true (if_pos haccept) haccept
    · refine iff_of_false (fun h => ?_) haccept
      change (if _ then _ else _) = _ at h
      rw [if_neg haccept] at h
      exact effects_ne_nil _ h.symm
  · rw [if_neg hsize] at hdecode
    refine iff_of_false (fun h => ?_) fun h => hsize h.2
    have hroom : roomPayload? S J ((mint.createInvite S handle draw).toUri S) = none := by
      have hlink : parseLink ((mint.createInvite S handle draw).toUri S) = some ("invite", _) :=
        parseLink_linkOf (S := S) (mint.createInvite S handle draw).jsonFields
      rw [roomPayload?, hlink]
      rfl
    rw [AcceptedAs, acceptEffects, hroom] at h
    simp only [hdecode] at h
    exact effects_ne_nil _ h.symm

theorem linksAccepted_iff (ephemeralSecret : Bytes) :
    LinksAccepted S J env c (mint.createInvite S handle draw) ephemeralSecret ↔
      Linkable S env c (mint.createInvite S handle draw) := by
  unfold LinksAccepted Linkable
  refine forall_congr' fun hnow => ?_
  rw [acceptedAs_toUri_iff hnow, and_assoc]
  refine and_congr_right fun hother => and_congr_right fun hsize => ?_
  by_cases hnone : handle = none ∨ mint.turnHints = none
  · refine iff_of_false ?_ ?_
    · rintro ⟨url, hurl, -⟩
      rw [buildConquerdInviteUrl_of_none _ _ hnone] at hurl
      cases hurl
    · rintro ⟨hhandle, hturn⟩
      exact hnone.elim hhandle hturn
  · obtain ⟨hhandle, hturn⟩ := not_or.mp hnone
    obtain ⟨name, hname⟩ := Option.ne_none_iff_exists'.mp hhandle
    obtain ⟨turn, hturn'⟩ := Option.ne_none_iff_exists'.mp hturn
    have hurl : buildConquerdInviteUrl
        (savedInvite (mint.createInvite S handle draw) ephemeralSecret) =
          some ((mint.createInvite S handle draw).toUri S) :=
      buildConquerdInviteUrl_savedInvite _ _ rfl hname rfl rfl rfl rfl rfl rfl hturn' rfl (by omega)
    exact iff_of_true ⟨_, hurl, (acceptedAs_toUri_iff hnow).mpr ⟨hother, hsize⟩⟩ ⟨hhandle, hturn⟩

end Minted

/-- Acceptance is authenticated exactly for links whose acceptable payloads are
signed, and a minted invite comes through by both ways exactly when it is linkable. -/
theorem supernodeInvites_iff (P : Platform) (S : FloatSyntax FiniteF64) (J : JsonSyntax)
    (env : Env) (c : ConnectionManager) :
    (∀ url, OnlySigned S J P env c url ↔ PassesOnlySigned S J P env c url) ∧
      ∀ (mint : InviteSource) (handle : Option String) (draw : InviteDraw) (secret : Bytes),
        LinksAccepted S J env c (mint.createInvite S handle draw) secret ↔
          Linkable S env c (mint.createInvite S handle draw) :=
  ⟨fun _ => onlySigned_iff, fun _ _ _ secret => linksAccepted_iff secret⟩

/-! ## A forged link and an invite that is not exported -/

/-- What anybody can write about Bob. -/
def forgedFields : List (String × SerdeValue) :=
  [("invite_id", .str "x"), ("inviter_identity_pub", .str bob.text), ("is_supernode", .bool true),
    ("relay_hint", .str "ws://192.0.2.1:34935")]

/-- Bob's supernode as it is configured by default: it knows no external address. -/
def defaultMint : InviteSource where
  peerId := "peer-bob"
  publicId := bob.text
  signing message := utf8Bytes bob.text ++ message
  listenerUrl := "ws://0.0.0.0:34935"
  inviteTtlSeconds := -1
  turnHints := none

def sampleDraw : InviteDraw where
  nonce := ⟨List.replicate 16 0, rfl⟩
  ephemeralPublic := List.replicate 32 7
  now := 1700000000

/-- The client believes the forged link, and the manager makes no link of the
default invite. -/
theorem forged_invite_accepted :
    ¬ OnlySigned FloatSyntax.sample Interop.compactSyntax Platform.symbolic Env.permissive
        (.start alice.text ⟨∅⟩) (linkOf FloatSyntax.sample forgedFields) ∧
      ¬ LinksAccepted FloatSyntax.sample Interop.compactSyntax Env.permissive
        (.start alice.text ⟨∅⟩)
        (defaultMint.createInvite FloatSyntax.sample (some "Supernode") sampleDraw) [] := by
  constructor
  · intro h
    have hread : ∀ e ∈ forgedFields,
        readValue (Number.ofLiteral FloatSyntax.sample) 126 (toDoc FloatSyntax.sample e.2) =
          some e.2 := by
      simp only [forgedFields, List.forall_mem_cons]
      exact ⟨rfl, rfl, rfl, rfl, nofun⟩
    have hsize : payloadSize FloatSyntax.sample forgedFields ≤ 196608 := by decide +kernel
    have hpayload : invitePayload? FloatSyntax.sample Interop.compactSyntax
        (linkOf FloatSyntax.sample forgedFields) = some (.obj (sortFields forgedFields)) := by
      rw [invitePayload?_linkOf hread, if_pos hsize]
    have hmem : ∃ e, e ∈ acceptEffects FloatSyntax.sample Interop.compactSyntax Env.permissive
        (.start alice.text ⟨∅⟩) (linkOf FloatSyntax.sample forgedFields) := by
      rw [acceptEffects_of_invite hpayload]
      exact List.exists_mem_of_ne_nil _ (by decide +kernel)
    obtain ⟨e, he⟩ := hmem
    obtain ⟨inv, hinv, -⟩ := h _ hpayload rfl e he
    -- a payload without an expiry is no invite of the signer's kind
    cases hinv
  · intro h
    obtain ⟨-, url, hurl, -⟩ := h (by decide +kernel)
    rw [buildConquerdInviteUrl_of_none _ _ (.inr rfl)] at hurl
    cases hurl

end ConquerD.Client
