import ConquerD.Client.Verify.SupernodeInvites

/-!
# Room invites: round trip and delivery

A room invite is a JSON object in a link. The parts of a Space are values within
it, one level further down, which is where a part that nests as deep as the reader
goes is lost, and the invite with it. Whoever accepts an invite waits for the
supernode it names; the table of those who wait has one row for a supernode, so
that every invite is handed on when none is accepted while another waits.
-/

namespace ConquerD.Client

open Lib.Encoding Lib.JsonText Lib.Run Wire

namespace RoomInvites

open Supernode (u64Value?)
open Supernode.InvitePayload (present)

/-! ## Values written and read -/

section Values

variable {S : FloatSyntax FiniteF64}

theorem map_some_injective {v w : SerdeValue} (h : v.map some = w.map some) : v = w := by
  have hback := congrArg (Value.map fun o : Option (Number FiniteF64) =>
    o.getD (.int 0 (by decide))) h
  rw [Value.map_map, Value.map_map] at hback
  exact (Value.map_id v).symm.trans (hback.trans (Value.map_id w))

theorem map_ofLiteral (hS : S.RoundTrips) (v : SerdeValue) :
    (toDoc S v).map (Number.ofLiteral S) = v.map some := by
  rw [toDoc, Value.map_map]
  exact congrArg (fun f => Value.map f v) (funext (Number.ofLiteral_toLiteral S hS))

theorem sorted_toDoc {v : SerdeValue} (hv : v.Sorted) : (toDoc S v).Sorted :=
  hv.map _

theorem eq_of_readValue_toDoc (hS : S.RoundTrips) {r : Nat} {v w : SerdeValue} (hv : v.Sorted)
    (h : readValue (Number.ofLiteral S) r (toDoc S v) = some w) : w = v := by
  have hmap := map_dedup_of_readValue h
  rw [(sorted_toDoc hv).dedup_eq, map_ofLiteral hS] at hmap
  exact (map_some_injective hmap).symm

theorem readValue_toDoc_iff (hS : S.RoundTrips) {r : Nat} {v : SerdeValue} (hv : v.Sorted) :
    readValue (Number.ofLiteral S) r (toDoc S v) = some v ↔ v.Fits r := by
  refine ⟨fits_of_readValue, fun hfits => ?_⟩
  have hevery : (toDoc S v).Every
      (fun n => ∃ m, Number.ofLiteral S n = some m ∧ m.toLiteral S = n) SortedKeys := by
    refine (Value.every_map_iff (sortedKeys_mapFields_iff _) v).mpr (hv.mono (fun n _ => ?_) fun _ h => h)
    exact ⟨n, Number.ofLiteral_toLiteral S hS n, rfl⟩
  have hfitsDoc : (toDoc S v).Fits r := hfits.map _
  obtain ⟨w, hread, -⟩ := exists_readValue hfitsDoc hevery
  rw [hread, eq_of_readValue_toDoc hS hv hread]

end Values

variable (S : FloatSyntax FiniteF64) (J : JsonSyntax)

def fromStr (text : String) : Option SerdeValue :=
  (J.read text).bind (readValue (Number.ofLiteral S) jsonDepth)

def fromSlice (jsonBytes : Bytes) : Option SerdeValue :=
  (fromUtf8 jsonBytes).bind (fromStr S J)

section Read

variable {S J}

theorem sorted_of_fromStr {text : String} {v : SerdeValue} (h : fromStr S J text = some v) :
    v.Sorted := by
  obtain ⟨d, -, hread⟩ := Option.bind_eq_some_iff.mp h
  exact sorted_of_readValue hread

theorem fits_of_fromStr {text : String} {v : SerdeValue} (h : fromStr S J text = some v) :
    v.Fits jsonDepth := by
  obtain ⟨d, -, hread⟩ := Option.bind_eq_some_iff.mp h
  exact fits_of_readValue hread

theorem toText_eq (v : SerdeValue) : toText S v = docText (toDoc S v) := by
  rw [toText, docText, toDoc, print_map]

theorem fromStr_toText (v : SerdeValue) :
    fromStr S J (toText S v) = readValue (Number.ofLiteral S) jsonDepth (toDoc S v) := by
  have hread : J.read (docText (toDoc S v)) = some (toDoc S v) := J.read_print _
  rw [fromStr, toText_eq, hread, Option.bind_some]

theorem fromSlice_toVec (v : SerdeValue) :
    fromSlice S J (toVec S v) = readValue (Number.ofLiteral S) jsonDepth (toDoc S v) := by
  rw [fromSlice, toVec, fromUtf8_utf8Bytes, Option.bind_some, fromStr_toText]

end Read

/-! ## Building and parsing -/

structure RoomInvitePayload where
  supernodeId : String
  supernodeHint : String
  roomId : String
  roomName : String
  roomType : String
  inviteToken : String
  expiresAt : UInt64
  spaceRoot : String
  spaceProof : String
  spaceGrant : String

theorem fits64_uint64 (n : UInt64) : Fits64 n.toNat := by
  have hlt := n.toNat_lt
  exact ⟨by omega, by omega⟩

/-- The value a part of a Space is embedded as, if it is there and can be read. -/
def spaceValue (text : String) : Option SerdeValue :=
  if text = "" then none else fromStr S J text

namespace RoomInvitePayload

variable (inv : RoomInvitePayload)

def fields : List (String × SerdeValue) :=
  [("v", .num (.int roomInviteSchema (by decide))),
    ("supernode_id", .str inv.supernodeId),
    ("supernode_hint", .str inv.supernodeHint),
    ("room_id", .str inv.roomId),
    ("room_name", .str inv.roomName),
    ("room_type", .str inv.roomType),
    ("invite_token", .str inv.inviteToken),
    ("expires_at", .num (.int inv.expiresAt.toNat (fits64_uint64 inv.expiresAt)))] ++
    present "space_root" (spaceValue S J inv.spaceRoot) ++
    present "space_proof" (spaceValue S J inv.spaceProof) ++
    present "space_grant" (spaceValue S J inv.spaceGrant)

/-- An object keeps its fields in the order of their names. -/
def payload : SerdeValue :=
  .obj (sortFields (inv.fields S J))

def spaceParts : List String :=
  [inv.spaceRoot, inv.spaceProof, inv.spaceGrant]

end RoomInvitePayload

/-- What stands after the number sign. -/
def roomInviteFragment (inv : RoomInvitePayload) : String :=
  b64UrlEncode (toVec S (inv.payload S J))

def buildRoomInviteUrl (inv : RoomInvitePayload) : String :=
  AppUrl.mintInviteHttps "room" (roomInviteFragment S J inv)

/-- How the libraries describe what they cannot decode. -/
structure ErrorTexts where
  base64 : String → String
  json : Bytes → String

/-- The text of a string field, empty when there is none. -/
def getStr (payload : SerdeValue) (k : String) : String :=
  ((valueGet? payload k).bind valueStr?).getD ""

/-- The text of an object under a key, empty when there is none. -/
def getObj (payload : SerdeValue) (k : String) : String :=
  match valueGet? payload k with
  | some (.obj fields) => toText S (.obj fields)
  | _ => ""

def readPayload (payload : SerdeValue) : Except String RoomInvitePayload :=
  match ((valueGet? payload "v").bind u64Value?).filter fun v => decide (roomInviteSchema < v) with
  | some v => .error ("unsupported room invite version " ++ toString v)
  | none =>
    if getStr payload "supernode_id" = "" then .error "room invite missing supernode_id"
    else if getStr payload "room_id" = "" then .error "room invite missing room_id"
    else
      .ok
        { supernodeId := getStr payload "supernode_id"
          supernodeHint := getStr payload "supernode_hint"
          roomId := getStr payload "room_id"
          roomName := getStr payload "room_name"
          roomType :=
            if getStr payload "room_type" = "" then "private" else getStr payload "room_type"
          inviteToken := getStr payload "invite_token"
          expiresAt := .ofNat (((valueGet? payload "expires_at").bind u64Value?).getD 0)
          spaceRoot := getObj S payload "space_root"
          spaceProof := getObj S payload "space_proof"
          spaceGrant := getObj S payload "space_grant" }

def maxRoomInvite : Nat := 262144

variable (E : ErrorTexts)

def parseRoomInvite (encoded : String) : Except String RoomInvitePayload :=
  if maxRoomInvite < encoded.utf8ByteSize then
    .error ("room invite too large (" ++ toString encoded.utf8ByteSize ++ " bytes)")
  else
    match b64UrlDecode (bare encoded) with
    | none => .error ("base64 decode error: " ++ E.base64 (bare encoded))
    | some jsonBytes =>
      match fromSlice S J jsonBytes with
      | none => .error ("JSON parse error: " ++ E.json jsonBytes)
      | some payload => readPayload S payload

/-! ## The round trip -/

/-- Two texts of a part stand for the same JSON value, or are both empty. -/
def SamePart (a b : String) : Prop :=
  spaceValue S J a = spaceValue S J b

/-- What is parsed has the fields of what was built. -/
structure Same (inv got : RoomInvitePayload) : Prop where
  supernodeId : got.supernodeId = inv.supernodeId
  supernodeHint : got.supernodeHint = inv.supernodeHint
  roomId : got.roomId = inv.roomId
  roomName : got.roomName = inv.roomName
  roomType : got.roomType = if inv.roomType = "" then "private" else inv.roomType
  inviteToken : got.inviteToken = inv.inviteToken
  expiresAt : got.expiresAt = inv.expiresAt
  spaceRoot : SamePart S J got.spaceRoot inv.spaceRoot
  spaceProof : SamePart S J got.spaceProof inv.spaceProof
  spaceGrant : SamePart S J got.spaceGrant inv.spaceGrant

/-- A part is left out, or it is the text of a JSON object. -/
def IsSpacePart (text : String) : Prop :=
  text = "" ∨ ∃ fields, spaceValue S J text = some (.obj fields)

/-- The invite names a supernode and a room, its parts are JSON objects, and it is
not too long to be read. -/
structure Mintable (inv : RoomInvitePayload) : Prop where
  supernodeId : inv.supernodeId ≠ ""
  roomId : inv.roomId ≠ ""
  parts : ∀ text ∈ inv.spaceParts, IsSpacePart S J text
  size : (roomInviteFragment S J inv).utf8ByteSize ≤ maxRoomInvite

/-- Arrays and objects nest one level less deep in the parts than they may in an
invite. -/
def PartsFit (inv : RoomInvitePayload) : Prop :=
  ∀ text ∈ inv.spaceParts, ∀ v, spaceValue S J text = some v → v.Fits 126

section RoundTrip

variable {S J E} {inv : RoomInvitePayload}

theorem sorted_of_spaceValue {text : String} {v : SerdeValue} (h : spaceValue S J text = some v) :
    v.Sorted := by
  rw [spaceValue] at h
  split at h
  · cases h
  · exact sorted_of_fromStr h

theorem forall_present {p : SerdeValue → Prop} {name : String} {v : Option SerdeValue} :
    (∀ e ∈ present name v, p e.2) ↔ ∀ w, v = some w → p w := by
  cases v with
  | none => exact iff_of_true (fun e he => nomatch he) nofun
  | some w =>
    refine ⟨fun h w' hw' => ?_, fun h e he => ?_⟩
    · cases hw'
      exact h (name, w) (List.mem_singleton.mpr rfl)
    · rw [List.mem_singleton.mp he]
      exact h w rfl

theorem forall_fields {p : SerdeValue → Prop} (hnum : ∀ n, p (.num n)) (hstr : ∀ s, p (.str s)) :
    (∀ e ∈ inv.fields S J, p e.2) ↔
      ∀ text ∈ inv.spaceParts, ∀ v, spaceValue S J text = some v → p v := by
  simp only [RoomInvitePayload.fields, RoomInvitePayload.spaceParts, List.forall_mem_append,
    forall_present, List.forall_mem_cons, hnum, hstr, List.not_mem_nil, false_imp_iff,
    implies_true, true_and, and_true, and_assoc]

theorem sorted_payload : (inv.payload S J).Sorted := by
  refine .obj (sortedKeys_sortFields _) fun e he => ?_
  have hfields : ∀ e ∈ inv.fields S J, e.2.Sorted :=
    forall_fields (fun _ => .num trivial) (fun s => .str s) |>.mpr fun _ _ _ h =>
      sorted_of_spaceValue h
  exact hfields e (mem_of_mem_sortFields he)

theorem valueGet?_payload (k : String) :
    valueGet? (inv.payload S J) k = (inv.fields S J).reverse.lookup k :=
  lookup_sortFields (inv.fields S J) k

/-- The value of each field that is looked for. -/
structure WrittenRoomFields (inv : RoomInvitePayload) (v : SerdeValue) : Prop where
  version : valueGet? v "v" = some (.num (.int roomInviteSchema (by decide)))
  supernodeId : valueGet? v "supernode_id" = some (.str inv.supernodeId)
  supernodeHint : valueGet? v "supernode_hint" = some (.str inv.supernodeHint)
  roomId : valueGet? v "room_id" = some (.str inv.roomId)
  roomName : valueGet? v "room_name" = some (.str inv.roomName)
  roomType : valueGet? v "room_type" = some (.str inv.roomType)
  inviteToken : valueGet? v "invite_token" = some (.str inv.inviteToken)
  expiresAt : valueGet? v "expires_at" =
    some (.num (.int inv.expiresAt.toNat (fits64_uint64 inv.expiresAt)))
  spaceRoot : valueGet? v "space_root" = spaceValue S J inv.spaceRoot
  spaceProof : valueGet? v "space_proof" = spaceValue S J inv.spaceProof
  spaceGrant : valueGet? v "space_grant" = spaceValue S J inv.spaceGrant

theorem writtenRoomFields_payload : WrittenRoomFields (S := S) (J := J) inv (inv.payload S J) := by
  constructor <;>
  · rw [valueGet?_payload]
    simp [RoomInvitePayload.fields, reverse_present, List.lookup_append, lookup_present,
      lookup_cons_ite]

theorem forall_of_lookup {p : SerdeValue → Prop} {fields : List (String × SerdeValue)}
    (h : ∀ e ∈ fields, p e.2) {k : String} {v : SerdeValue} (hv : fields.lookup k = some v) :
    p v := by
  obtain ⟨before, after, rfl, -⟩ := List.lookup_eq_some_iff.mp hv
  exact h (k, v) (List.mem_append_right _ (List.mem_cons_self ..))

theorem fits_payload_iff : (inv.payload S J).Fits jsonDepth ↔ PartsFit S J inv := by
  have hfields : (∀ e ∈ inv.fields S J, e.2.Fits 126) ↔ PartsFit S J inv :=
    forall_fields (fun n => .num 126 n) fun s => .str 126 s
  constructor
  · intro h text htext v hv
    have hwritten : WrittenRoomFields (S := S) (J := J) inv (inv.payload S J) :=
      writtenRoomFields_payload
    cases h with
    | obj hall =>
      have hpart : ∀ k, valueGet? (inv.payload S J) k = spaceValue S J text → v.Fits 126 :=
        fun k hk => forall_of_lookup hall (hk.trans hv)
      simp only [RoomInvitePayload.spaceParts, List.mem_cons, List.not_mem_nil, or_false] at htext
      rcases htext with rfl | rfl | rfl
      · exact hpart _ hwritten.spaceRoot
      · exact hpart _ hwritten.spaceProof
      · exact hpart _ hwritten.spaceGrant
  · exact fun h => .obj fun e he => hfields.mpr h e (mem_of_mem_sortFields he)

/-- The text a part is handed on as. -/
def partText (S : FloatSyntax FiniteF64) (J : JsonSyntax) (text : String) : String :=
  match spaceValue S J text with
  | some (.obj fields) => toText S (.obj fields)
  | _ => ""

theorem toText_obj_ne_empty (fields : List (String × SerdeValue)) : toText S (.obj fields) ≠ "" := by
  intro h
  have hhead := head?_toVec_obj S fields
  rw [toVec, h] at hhead
  cases hhead

theorem samePart_partText (hS : S.RoundTrips) {text : String} (h : IsSpacePart S J text) :
    SamePart S J (partText S J text) text := by
  rcases h with rfl | ⟨fields, hvalue⟩
  · have hnone : spaceValue S J "" = none := if_pos rfl
    have hempty : partText S J "" = "" := by rw [partText, hnone]
    rw [SamePart, hempty]
  · have htext : partText S J text = toText S (.obj fields) := by rw [partText, hvalue]
    have hread : fromStr S J text = some (.obj fields) := by
      rw [spaceValue] at hvalue
      split at hvalue
      · cases hvalue
      · exact hvalue
    rw [SamePart, htext, hvalue, spaceValue, if_neg (toText_obj_ne_empty fields), fromStr_toText]
    exact (readValue_toDoc_iff hS (sorted_of_fromStr hread)).mpr (fits_of_fromStr hread)

/-- The fields of a payload that is read. -/
def expected (S : FloatSyntax FiniteF64) (J : JsonSyntax) (inv : RoomInvitePayload) :
    RoomInvitePayload :=
  { inv with
    roomType := if inv.roomType = "" then "private" else inv.roomType
    spaceRoot := partText S J inv.spaceRoot
    spaceProof := partText S J inv.spaceProof
    spaceGrant := partText S J inv.spaceGrant }

theorem readPayload_payload (hsupernode : inv.supernodeId ≠ "") (hroom : inv.roomId ≠ "") :
    readPayload S (inv.payload S J) = .ok (expected S J inv) := by
  have h : WrittenRoomFields (S := S) (J := J) inv (inv.payload S J) :=
    writtenRoomFields_payload
  have hversion : ((valueGet? (inv.payload S J) "v").bind u64Value?).filter
      (fun v => decide (roomInviteSchema < v)) = none := by
    rw [h.version]
    rfl
  have hexpires : ((valueGet? (inv.payload S J) "expires_at").bind u64Value?).getD 0 =
      inv.expiresAt.toNat := by
    rw [h.expiresAt, Option.bind_some, u64Value?, if_pos (Int.natCast_nonneg _), Int.toNat_natCast,
      Option.getD_some]
  have hstr : ∀ {k s : String}, valueGet? (inv.payload S J) k = some (.str s) →
      getStr (inv.payload S J) k = s := by
    intro k s hk
    rw [getStr, hk]
    rfl
  have hobj : ∀ {k text : String}, valueGet? (inv.payload S J) k = spaceValue S J text →
      getObj S (inv.payload S J) k = partText S J text := by
    intro k text hk
    rw [getObj, hk, partText]
  rw [readPayload, hversion]
  simp only [hstr h.supernodeId, hstr h.supernodeHint, hstr h.roomId, hstr h.roomName,
    hstr h.roomType, hstr h.inviteToken, hobj h.spaceRoot, hobj h.spaceProof, hobj h.spaceGrant,
    hexpires, if_neg hsupernode, if_neg hroom, UInt64.ofNat_toNat, expected]

theorem parseRoomInvite_fragment (h : Mintable S J inv) :
    parseRoomInvite S J E (roomInviteFragment S J inv) =
      match readValue (Number.ofLiteral S) jsonDepth (toDoc S (inv.payload S J)) with
      | none => .error ("JSON parse error: " ++ E.json (toVec S (inv.payload S J)))
      | some payload => readPayload S payload := by
  rw [parseRoomInvite, if_neg (Nat.not_lt.mpr h.size), roomInviteFragment, bare_b64UrlEncode,
    b64UrlDecode_b64UrlEncode]
  simp only [fromSlice_toVec]
  rfl

theorem parseRoomInvite_of_fit (hS : S.RoundTrips) (h : Mintable S J inv)
    (hfit : PartsFit S J inv) :
    parseRoomInvite S J E (roomInviteFragment S J inv) = .ok (expected S J inv) := by
  rw [parseRoomInvite_fragment h,
    (readValue_toDoc_iff hS sorted_payload).mpr (fits_payload_iff.mpr hfit)]
  exact readPayload_payload h.supernodeId h.roomId

/-- An invite is read back exactly when its parts leave a level for the invite itself. -/
theorem round_trip_iff (hS : S.RoundTrips) (h : Mintable S J inv) :
    (∃ got, parseRoomInvite S J E (roomInviteFragment S J inv) = .ok got ∧ Same S J inv got) ↔
      PartsFit S J inv := by
  constructor
  · rintro ⟨got, hgot, -⟩
    rw [parseRoomInvite_fragment h] at hgot
    split at hgot
    · cases hgot
    · next payload hread =>
      rw [eq_of_readValue_toDoc hS sorted_payload hread] at hread
      exact fits_payload_iff.mp (fits_of_readValue hread)
  · intro hfit
    have hpart : ∀ text ∈ inv.spaceParts, SamePart S J (partText S J text) text :=
      fun text htext => samePart_partText hS (h.parts text htext)
    refine ⟨expected S J inv, parseRoomInvite_of_fit hS h hfit, ?_⟩
    exact ⟨rfl, rfl, rfl, rfl, rfl, rfl, rfl, hpart _ (by simp [RoomInvitePayload.spaceParts]),
      hpart _ (by simp [RoomInvitePayload.spaceParts]),
      hpart _ (by simp [RoomInvitePayload.spaceParts])⟩

end RoundTrip

/-! ## Acceptance -/

structure RoomInviteEntry where
  roomId : String
  roomName : String
  roomType : String
  inviteToken : String
  parentId : String
  spaceId : String
  deriving DecidableEq

/-- What the client is told. -/
inductive RoomInviteEvent where
  | ready (supernodeId : String) (entry : RoomInviteEntry)
  | failed (text : String)

/-- The tables that accepted invites go through. A supernode is known with whether
its socket is connected. -/
structure Intake where
  peerStore : PeerStore
  supernodes : String → Option Bool
  pendingRoomInviteEntries : String → Option RoomInviteEntry
  pendingJoinSpaceCreds : String → Option (String × String × String)
  events : List RoomInviteEvent

/-- The tables of a client that waits for nothing. -/
def Intake.start (peerStore : PeerStore) (supernodes : String → Option Bool) : Intake where
  peerStore := peerStore
  supernodes := supernodes
  pendingRoomInviteEntries _ := none
  pendingJoinSpaceCreds _ := none
  events := []

namespace RoomInvitePayload

variable (p : RoomInvitePayload)

def expired (env : Env) : Bool :=
  p.expiresAt != 0 && decide (p.expiresAt.toNat < env.nowSecs)

/-- The parent of the room in the tree of its owner. -/
def spaceParentId : String :=
  (((fromStr S J p.spaceProof).bind fun v => valueGet? v "node").map
    fun node => getStr node "parent_id").getD ""

def spaceTreeId : String :=
  ((fromStr S J p.spaceRoot).map fun v => getStr v "space_id").getD ""

def entry : RoomInviteEntry where
  roomId := p.roomId
  roomName := p.roomName
  roomType := p.roomType
  inviteToken := p.inviteToken
  parentId := p.spaceParentId S J
  spaceId := p.spaceTreeId S J

def record (env : Env) : PeerRecord :=
  { PeerRecord.default with
    peerId := p.supernodeId
    identityPub := p.supernodeId
    relayHints := [p.supernodeHint]
    isSupernode := true
    supernodeFromInvite := true
    createdAt := env.unixNow
    lastSeenAt := env.unixNow }

end RoomInvitePayload

namespace Intake

variable (s : Intake)

def emit (e : RoomInviteEvent) : Intake :=
  { s with events := s.events ++ [e] }

/-- The proof of admission and the address of the supernode are kept. -/
def remember (env : Env) (p : RoomInvitePayload) : Intake :=
  { s with
    pendingJoinSpaceCreds :=
      if p.spaceProof = "" then s.pendingJoinSpaceCreds
      else Function.update s.pendingJoinSpaceCreds p.roomId
        (some (p.spaceRoot, p.spaceProof, p.spaceGrant))
    peerStore :=
      if p.supernodeHint = "" then s.peerStore else s.peerStore.upsertFromInvite (p.record env) }

/-- The invite cannot be followed: nobody knows where its supernode is. -/
def Unreachable (p : RoomInvitePayload) : Prop :=
  s.supernodes p.supernodeId = none ∧ p.supernodeHint = ""

instance (p : RoomInvitePayload) : Decidable (s.Unreachable p) :=
  inferInstanceAs (Decidable (_ ∧ _))

def handOff (p : RoomInvitePayload) : Intake :=
  if s.supernodes p.supernodeId = some true then
    s.emit (.ready p.supernodeId (p.entry S J))
  else if s.Unreachable p then s.emit (.failed "room invite missing supernode address")
  else
    { s with
      supernodes := Function.update s.supernodes p.supernodeId (some false)
      pendingRoomInviteEntries :=
        Function.update s.pendingRoomInviteEntries p.supernodeId (some (p.entry S J)) }

def handleAcceptRoomInvite (env : Env) (encoded : String) : Intake :=
  match parseRoomInvite S J E encoded with
  | .error text => s.emit (.failed text)
  | .ok p =>
    if p.expired env then s.emit (.failed "room invite expired")
    else (s.remember env p).handOff S J p

def wsConnected (peerId : String) : Intake :=
  let s := { s with
    supernodes := Function.update s.supernodes peerId ((s.supernodes peerId).map fun _ => true) }
  match s.pendingRoomInviteEntries peerId with
  | none => s
  | some entry =>
    emit
      { s with
        pendingRoomInviteEntries := Function.update s.pendingRoomInviteEntries peerId none }
      (.ready peerId entry)

def wsDisconnected (peerId : String) : Intake :=
  { s with
    supernodes := Function.update s.supernodes peerId ((s.supernodes peerId).map fun _ => false) }

end Intake

/-! ## Runs -/

inductive IntakeOp where
  | accept (env : Env) (encoded : String)
  | connected (peerId : String)
  | disconnected (peerId : String)

def Intake.step (s : Intake) : IntakeOp → Intake
  | .accept env encoded => s.handleAcceptRoomInvite S J E env encoded
  | .connected peerId => s.wsConnected peerId
  | .disconnected peerId => s.wsDisconnected peerId

def accepted? (s : Intake) : IntakeOp → Option (String × RoomInviteEntry)
  | .accept env encoded =>
    match parseRoomInvite S J E encoded with
    | .error _ => none
    | .ok p =>
      if p.expired env = true ∨ s.Unreachable p then none
      else some (p.supernodeId, p.entry S J)
  | .connected _ => none
  | .disconnected _ => none

/-- The invites accepted in a run, in order. -/
def acceptedOf : Intake → List IntakeOp → List (String × RoomInviteEntry)
  | _, [] => []
  | s, op :: ops => (accepted? S J E s op).toList ++ acceptedOf (s.step S J E op) ops

def readyOf : RoomInviteEvent → Option (String × RoomInviteEntry)
  | .ready supernodeId entry => some (supernodeId, entry)
  | .failed _ => none

/-- The entries of one supernode. -/
def entriesFor (peerId : String) (l : List (String × RoomInviteEntry)) : List RoomInviteEntry :=
  l.filterMap fun e => if e.1 = peerId then some e.2 else none

/-- Nothing waits for the supernode of an invite that is accepted. -/
def NoneWaits (s : Intake) (op : IntakeOp) : Prop :=
  ∀ peerId entry, accepted? S J E s op = some (peerId, entry) →
    s.pendingRoomInviteEntries peerId = none

section Delivery

variable {S J E} {s : Intake} {acc : List (String × RoomInviteEntry)}

/-- Every invite accepted was handed on or waits, and nothing waits for a supernode
that is connected. -/
structure Intake.Keeps (s : Intake) (acc : List (String × RoomInviteEntry)) : Prop where
  kept : ∀ peerId, entriesFor peerId acc =
    entriesFor peerId (s.events.filterMap readyOf) ++
      (s.pendingRoomInviteEntries peerId).toList
  idle : ∀ peerId, s.supernodes peerId = some true → s.pendingRoomInviteEntries peerId = none

theorem entriesFor_append (peerId : String) (l l' : List (String × RoomInviteEntry)) :
    entriesFor peerId (l ++ l') = entriesFor peerId l ++ entriesFor peerId l' :=
  List.filterMap_append ..

theorem entriesFor_self (peerId : String) (entry : RoomInviteEntry) :
    entriesFor peerId [(peerId, entry)] = [entry] := by
  simp [entriesFor]

theorem entriesFor_of_ne {peerId other : String} (h : other ≠ peerId) (entry : RoomInviteEntry) :
    entriesFor peerId [(other, entry)] = [] := by
  simp [entriesFor, h]

theorem ready_concat (events : List RoomInviteEvent) (peerId : String) (entry : RoomInviteEntry) :
    (events ++ [RoomInviteEvent.ready peerId entry]).filterMap readyOf =
      events.filterMap readyOf ++ [(peerId, entry)] := by
  simp [readyOf]

theorem failed_concat (events : List RoomInviteEvent) (text : String) :
    (events ++ [RoomInviteEvent.failed text]).filterMap readyOf = events.filterMap readyOf := by
  simp [readyOf]

theorem Intake.Keeps.failed (h : s.Keeps acc) (text : String) : (s.emit (.failed text)).Keeps acc where
  kept peerId := by
    rw [Intake.emit, failed_concat]
    exact h.kept peerId
  idle := h.idle

theorem Intake.Keeps.remember (h : s.Keeps acc) (env : Env) (p : RoomInvitePayload) :
    (s.remember env p).Keeps acc where
  kept := h.kept
  idle := h.idle

theorem Intake.Keeps.handOff (h : s.Keeps acc) {p : RoomInvitePayload}
    (hreach : ¬s.Unreachable p) (hnone : s.pendingRoomInviteEntries p.supernodeId = none) :
    (s.handOff S J p).Keeps (acc ++ [(p.supernodeId, p.entry S J)]) := by
  by_cases hconnected : s.supernodes p.supernodeId = some true
  · rw [Intake.handOff, if_pos hconnected]
    refine ⟨fun peerId => ?_, h.idle⟩
    rw [Intake.emit, ready_concat, entriesFor_append, entriesFor_append, h.kept peerId]
    by_cases hpeer : p.supernodeId = peerId
    · rw [← hpeer, hnone, Option.toList_none, List.append_nil, List.append_nil]
    · rw [entriesFor_of_ne hpeer, List.append_nil, List.append_nil]
  · rw [Intake.handOff, if_neg hconnected, if_neg hreach]
    refine ⟨fun peerId => ?_, fun peerId hconnected => ?_⟩
    · rw [entriesFor_append, h.kept peerId]
      dsimp only
      by_cases hpeer : p.supernodeId = peerId
      · rw [← hpeer, hnone, Function.update_self, entriesFor_self, Option.toList_none,
          List.append_nil, Option.toList_some]
      · rw [Function.update_of_ne (Ne.symm hpeer), entriesFor_of_ne hpeer, List.append_nil]
    · dsimp only at hconnected ⊢
      by_cases hpeer : p.supernodeId = peerId
      · rw [← hpeer, Function.update_self] at hconnected
        cases hconnected
      · rw [Function.update_of_ne (Ne.symm hpeer)] at hconnected ⊢
        exact h.idle peerId hconnected

theorem Intake.Keeps.wsConnected (h : s.Keeps acc) (peerId : String) :
    (s.wsConnected peerId).Keeps acc := by
  rw [Intake.wsConnected]
  dsimp only
  split
  · next hnone =>
    refine ⟨h.kept, fun other hconnected => ?_⟩
    dsimp only at hconnected ⊢
    by_cases hpeer : other = peerId
    · rw [hpeer]
      exact hnone
    · rw [Function.update_of_ne hpeer] at hconnected
      exact h.idle other hconnected
  · next entry hentry =>
    refine ⟨fun other => ?_, fun other hconnected => ?_⟩
    · rw [Intake.emit, ready_concat, entriesFor_append, h.kept other]
      dsimp only
      by_cases hpeer : other = peerId
      · rw [hpeer, hentry, Function.update_self, entriesFor_self, Option.toList_some,
          Option.toList_none, List.append_nil]
      · rw [Function.update_of_ne hpeer, entriesFor_of_ne (Ne.symm hpeer), List.append_nil]
    · dsimp only [Intake.emit] at hconnected ⊢
      by_cases hpeer : other = peerId
      · rw [hpeer]
        exact Function.update_self ..
      · rw [Function.update_of_ne hpeer] at hconnected ⊢
        exact h.idle other hconnected

theorem Intake.Keeps.wsDisconnected (h : s.Keeps acc) (peerId : String) :
    (s.wsDisconnected peerId).Keeps acc := by
  refine ⟨h.kept, fun other hconnected => ?_⟩
  dsimp only [Intake.wsDisconnected] at hconnected ⊢
  by_cases hpeer : other = peerId
  · rw [hpeer, Function.update_self] at hconnected
    obtain ⟨b, -, hb⟩ := Option.map_eq_some_iff.mp hconnected
    cases hb
  · rw [Function.update_of_ne hpeer] at hconnected
    exact h.idle other hconnected

theorem Intake.Keeps.step (h : s.Keeps acc) {op : IntakeOp} (hnone : NoneWaits S J E s op) :
    (s.step S J E op).Keeps (acc ++ (accepted? S J E s op).toList) := by
  cases op with
  | connected peerId =>
    rw [accepted?, Option.toList_none, List.append_nil]
    exact h.wsConnected peerId
  | disconnected peerId =>
    rw [accepted?, Option.toList_none, List.append_nil]
    exact h.wsDisconnected peerId
  | accept env encoded =>
    rw [NoneWaits, accepted?] at hnone
    rw [Intake.step, Intake.handleAcceptRoomInvite, accepted?]
    cases hparse : parseRoomInvite S J E encoded with
    | error text =>
      rw [Option.toList_none, List.append_nil]
      exact h.failed text
    | ok p =>
      rw [hparse] at hnone
      dsimp only at hnone ⊢
      by_cases hexpired : p.expired env = true
      · rw [if_pos hexpired, if_pos (.inl hexpired), Option.toList_none, List.append_nil]
        exact h.failed _
      · rw [if_neg hexpired]
        by_cases hreach : s.Unreachable p
        · have hoff : (s.remember env p).handOff S J p =
              (s.remember env p).emit (.failed "room invite missing supernode address") := by
            have hunknown : (s.remember env p).supernodes p.supernodeId ≠ some true := by
              rw [show (s.remember env p).supernodes p.supernodeId = none from hreach.1]
              exact nofun
            have hreach' : (s.remember env p).Unreachable p := hreach
            rw [Intake.handOff, if_neg hunknown, if_pos hreach']
          rw [hoff, if_pos (.inr hreach), Option.toList_none, List.append_nil]
          exact (h.remember env p).failed _
        · have hnot : ¬(p.expired env = true ∨ s.Unreachable p) :=
            fun hor => hor.elim hexpired hreach
          rw [if_neg hnot] at hnone ⊢
          rw [Option.toList_some]
          exact (h.remember env p).handOff hreach (hnone _ _ rfl)

theorem Intake.Keeps.along (h : s.Keeps acc) {ops : List IntakeOp}
    (hnone : Along (fun s op => Intake.step S J E s op) (NoneWaits S J E) s ops) :
    (run (fun s op => Intake.step S J E s op) s ops).Keeps
      (acc ++ acceptedOf S J E s ops) := by
  induction ops generalizing s acc with
  | nil =>
    rw [acceptedOf, List.append_nil]
    exact h
  | cons op ops ih =>
    have hrest := ih (h.step hnone.1) hnone.2
    rw [List.append_assoc] at hrest
    exact hrest

theorem Intake.Keeps.start (peerStore : PeerStore) (supernodes : String → Option Bool) :
    (Intake.start peerStore supernodes).Keeps [] where
  kept _ := rfl
  idle _ _ := rfl

end Delivery

/-- An invite without parts of a Space, which never expires. -/
def plainInvite (roomId : String) : RoomInvitePayload where
  supernodeId := "host"
  supernodeHint := "wss://host"
  roomId := roomId
  roomName := "Room"
  roomType := "private"
  inviteToken := "token"
  expiresAt := 0
  spaceRoot := ""
  spaceProof := ""
  spaceGrant := ""

theorem partsFit_plainInvite (roomId : String) : PartsFit S J (plainInvite roomId) := by
  intro text htext v hv
  have hempty : text = "" := by
    simpa [RoomInvitePayload.spaceParts, plainInvite] using htext
  rw [spaceValue, if_pos hempty] at hv
  cases hv

theorem mintable_plainInvite {roomId : String} (hroom : roomId ∈ ["attic", "cellar"]) :
    Mintable FloatSyntax.sample Interop.compactSyntax (plainInvite roomId) where
  supernodeId := by
    change "host" ≠ ""
    decide
  roomId := by
    rcases List.mem_pair.mp hroom with rfl | rfl <;> exact (by decide)
  parts text htext := .inl (by simpa [RoomInvitePayload.spaceParts, plainInvite] using htext)
  size := by
    have hbytes : (toVec FloatSyntax.sample
        ((plainInvite roomId).payload FloatSyntax.sample Interop.compactSyntax)).length ≤ 1000 := by
      rcases List.mem_pair.mp hroom with rfl | rfl <;> decide +kernel
    rw [roomInviteFragment, AppUrl.utf8ByteSize_b64UrlEncode, maxRoomInvite]
    omega

def noTexts : ErrorTexts :=
  ⟨fun _ => "", fun _ => ""⟩

/-- A part of a Space. -/
def lobbyRoot : SerdeValue :=
  .obj [("space", .str "lobby")]

/-- An invite with the root of its Space. -/
def spaceInvite : RoomInvitePayload :=
  { plainInvite "attic" with spaceRoot := toText FloatSyntax.sample lobbyRoot }

theorem spaceValue_lobbyRoot :
    spaceValue FloatSyntax.sample Interop.compactSyntax (toText FloatSyntax.sample lobbyRoot) =
      some lobbyRoot := by
  rw [spaceValue, if_neg (by decide +kernel), fromStr_toText]
  rfl

theorem mintable_spaceInvite :
    Mintable FloatSyntax.sample Interop.compactSyntax spaceInvite where
  supernodeId := by
    change "host" ≠ ""
    decide
  roomId := by
    change "attic" ≠ ""
    decide
  parts text htext := by
    have hparts : text = toText FloatSyntax.sample lobbyRoot ∨ text = "" := by
      simpa [RoomInvitePayload.spaceParts, spaceInvite, plainInvite] using htext
    rcases hparts with rfl | rfl
    · exact .inr ⟨_, spaceValue_lobbyRoot⟩
    · exact .inl rfl
  size := by
    have hbytes : (toVec FloatSyntax.sample
        (spaceInvite.payload FloatSyntax.sample Interop.compactSyntax)).length ≤ 1000 := by
      have hroot : spaceValue FloatSyntax.sample Interop.compactSyntax spaceInvite.spaceRoot =
          some lobbyRoot := spaceValue_lobbyRoot
      rw [RoomInvitePayload.payload, RoomInvitePayload.fields, hroot]
      decide +kernel
    rw [roomInviteFragment, AppUrl.utf8ByteSize_b64UrlEncode, maxRoomInvite]
    omega

theorem partsFit_spaceInvite :
    PartsFit FloatSyntax.sample Interop.compactSyntax spaceInvite := by
  intro text htext v hv
  have hparts : text = toText FloatSyntax.sample lobbyRoot ∨ text = "" := by
    simpa [RoomInvitePayload.spaceParts, spaceInvite, plainInvite] using htext
  rcases hparts with rfl | rfl
  · rw [spaceValue_lobbyRoot] at hv
    cases hv
    exact .obj fun e he => List.mem_singleton.mp he ▸ .str 125 "lobby"
  · rw [spaceValue, if_pos rfl] at hv
    cases hv

structure WaitsForHost (p : RoomInvitePayload) : Prop where
  supernodeId : p.supernodeId = "host"
  hint : p.supernodeHint ≠ ""
  fresh : p.expired .permissive = false

theorem WaitsForHost.expected {S : FloatSyntax FiniteF64} {J : JsonSyntax}
    {inv : RoomInvitePayload} (h : WaitsForHost inv) : WaitsForHost (expected S J inv) :=
  ⟨h.supernodeId, h.hint, h.fresh⟩

theorem waitsForHost_plainInvite (roomId : String) : WaitsForHost (plainInvite roomId) where
  supernodeId := rfl
  hint := by
    change "wss://host" ≠ ""
    decide
  fresh := rfl

theorem waitsForHost_spaceInvite : WaitsForHost spaceInvite :=
  ⟨rfl, (waitsForHost_plainInvite "attic").hint, rfl⟩

/-- An invite is accepted before its supernode is connected. -/
def oneInvite (a : String) : List IntakeOp :=
  [.accept .permissive a, .connected "host"]

theorem one_waits {S : FloatSyntax FiniteF64} {J : JsonSyntax} {E : ErrorTexts} {a : String}
    {p : RoomInvitePayload} (ha : parseRoomInvite S J E a = .ok p) (hp : WaitsForHost p) :
    Along (fun s op => Intake.step S J E s op) (NoneWaits S J E) (.start ⟨∅⟩ fun _ => none)
        (oneInvite a) ∧
      (run (fun s op => Intake.step S J E s op) (.start ⟨∅⟩ fun _ => none)
        (oneInvite a)).supernodes "host" = some true ∧
      entriesFor "host" (acceptedOf S J E (.start ⟨∅⟩ fun _ => none) (oneInvite a)) =
        [p.entry S J] := by
  refine ⟨⟨fun _ _ _ => rfl, ⟨nofun, trivial⟩⟩, ?_, ?_⟩
  · simp [oneInvite, Intake.step, Intake.start, Intake.handleAcceptRoomInvite, Intake.remember,
      Intake.handOff, Intake.Unreachable, Intake.wsConnected, Intake.emit, ha, hp.supernodeId,
      hp.hint, hp.fresh]
  · simp [oneInvite, acceptedOf, accepted?, Intake.start, Intake.Unreachable, ha,
      hp.supernodeId, hp.hint, hp.fresh, entriesFor]

/-- Two invites are accepted before their supernode is connected. -/
def twoInvites (a b : String) : List IntakeOp :=
  [.accept .permissive a, .accept .permissive b, .connected "host"]

def afterTwoInvites (a b : String) : Intake :=
  run (fun s op => Intake.step S J E s op) (.start ⟨∅⟩ fun _ => none) (twoInvites a b)

theorem second_takes_row {S : FloatSyntax FiniteF64} {J : JsonSyntax} {E : ErrorTexts}
    {a b : String} {p q : RoomInvitePayload} (ha : parseRoomInvite S J E a = .ok p)
    (hb : parseRoomInvite S J E b = .ok q) (hp : WaitsForHost p) (hq : WaitsForHost q) :
    (afterTwoInvites S J E a b).supernodes "host" = some true ∧
      entriesFor "host" (acceptedOf S J E (.start ⟨∅⟩ fun _ => none) (twoInvites a b)) =
        [p.entry S J, q.entry S J] ∧
      entriesFor "host" ((afterTwoInvites S J E a b).events.filterMap readyOf) =
        [q.entry S J] := by
  simp [afterTwoInvites, twoInvites, acceptedOf, accepted?, Intake.step, Intake.start,
    Intake.handleAcceptRoomInvite, Intake.remember, Intake.handOff, Intake.Unreachable,
    Intake.wsConnected, Intake.emit, ha, hb, hp.supernodeId, hq.supernodeId, hp.hint, hp.fresh,
    hq.fresh, entriesFor, readyOf]

end RoomInvites
end ConquerD.Client
