import ConquerD.Supernode.Verify.Frame

/-!
# Space proofs and the room's owner

Anyone may sign a root of a space of their own, and the store keeps the first
signer it sees. Nothing compares the signer of the root a proof verifies against
with the creator of the room, and whether a grant is needed is read off the
proven node. Admission speaks for the room's creator along every run whose
proofs for owned private rooms come from the creator's own root and prove a
private node.
-/

namespace ConquerD.Supernode

open Lib.Encoding Lib.Run Wire

/-! ## What the code checks -/

section Checks

variable {P : Platform}

theorem key_of_verifyWithId {id signature : String} {message : Bytes}
    (h : verifyWithId P id signature message = true) :
    ∃ key sig, P.b64urlDecode id = some key ∧ P.ed25519Verify key sig message = true := by
  unfold verifyWithId at h
  split at h
  · rename_i key sig hkey _
    exact ⟨key, sig, hkey, h⟩
  · cases h

theorem b64urlDecode_of_bare_eq {a b : String} (h : bare a = bare b) :
    P.b64urlDecode a = P.b64urlDecode b := by
  unfold Platform.b64urlDecode
  rw [h]

theorem grant_of_spaceAdmissionOk {root : SignedSpaceRoot} {proof : SpaceInclusionProof}
    {grant : Option SpaceGrant} {sender roomId : String} {now : Nat}
    (h : spaceAdmissionOk P root proof grant sender roomId now = true)
    (hprivate : proof.node.nodeType = "private") :
    ∃ g, grant = some g ∧ g.verify P root.signer = true ∧ g.nodeId = roomId ∧
      bare g.granteePub = bare sender ∧ (g.expiresAt = 0 ∨ now ≤ g.expiresAt) := by
  unfold spaceAdmissionOk at h
  split at h
  · cases h
  · rw [if_neg (by simp [hprivate])] at h
    cases grant with
    | none => cases h
    | some g =>
      simp only at h
      split at h
      · cases h
      · rename_i hchecks
        push Not at hchecks
        obtain ⟨hver, hnode, hgrantee, -⟩ := hchecks
        exact ⟨g, rfl, by simpa using hver, hnode, hgrantee, by simpa using h⟩

end Checks

/-! ## Held roots are verified -/

/-- Every held root carries a signature that verifies. -/
def RootsVerified (P : Platform) (store : SpaceRootStore) : Prop :=
  ∀ spaceId root, store.get spaceId = some root → root.verify P = true

theorem RootsVerified.accept {P : Platform} {store : SpaceRootStore} (h : RootsVerified P store)
    (root : SignedSpaceRoot) : RootsVerified P (store.accept P root).1 := by
  have hstored : root.verify P = true →
      RootsVerified P { store with roots := store.roots.insert root.spaceId root } := by
    intro hver spaceId held hheld
    simp only [SpaceRootStore.get, Std.ExtTreeMap.getElem?_insert] at hheld
    split at hheld
    · cases hheld
      exact hver
    · exact h spaceId held hheld
  unfold SpaceRootStore.accept
  split
  · exact h
  · rename_i hver
    have hver : root.verify P = true := by simpa using hver
    simp only
    split
    · exact hstored hver
    · split
      · exact h
      · split
        · exact h
        · split
          · exact h
          · exact hstored hver

namespace SupernodeState

variable {P : Platform} {env : Env} {st : SupernodeState} {msg : SignalingMessage} {raw : String}

theorem KeepsLink.verified {st' : SupernodeState} (h : KeepsLink P st st')
    (hver : RootsVerified P st.spaceRoots) : RootsVerified P st'.spaceRoots := by
  rcases h.spaceRoots with heq | ⟨root, heq⟩
  · rw [heq]
    exact hver
  · rw [heq]
    exact hver.accept root

theorem step_verified (h : RootsVerified P st.spaceRoots) (e : Event) :
    RootsVerified P (st.step P e).spaceRoots := by
  by_cases hgame : ∃ s p b, e = .gameDatagram s p b
  · obtain ⟨s, p, b, rfl⟩ := hgame
    unfold SupernodeState.step handle replicateGameDatagram
    simp only
    split <;> exact h
  · by_cases hrepl : ∃ env r i raw, e = .replicated env r i raw
    · obtain ⟨env, r, i, raw, rfl⟩ := hrepl
      unfold SupernodeState.step handle
      rw [deliverReplicatedRoomFrame_state]
      exact h
    · push Not at hgame hrepl
      exact (handle_keepsLink hgame hrepl).verified h

end SupernodeState

/-! ## The property and the condition -/

/-- The room a message carries a Space proof for. -/
def spaceRoom (msg : SignalingMessage) : Option String :=
  match msg.msgType with
  | .sfuJoin => some (SupernodeState.frameRoom msg)
  | .sfuRoomInvite => some (SupernodeState.inviteRoom msg)
  | _ => none

/-- The owner has signed a root that contains a node for the room, and an
unexpired grant for the peer on the room. -/
def OwnerVouches (P : Platform) (Signed : Bytes → Bytes → Prop) (owner sender roomId : String)
    (now : Nat) : Prop :=
  ∃ key root proof grant, P.b64urlDecode owner = some key ∧
    bare root.signer = bare owner ∧ Signed key (SignedSpaceRoot.signingBytes P root) ∧
    proof.node.nodeId = roomId ∧ SpaceInclusionProof.verifyAgainst P proof root = true ∧
    Signed key (SpaceGrant.signingBytes P grant) ∧ grant.nodeId = roomId ∧
    bare grant.granteePub = bare sender ∧ (grant.expiresAt = 0 ∨ now ≤ grant.expiresAt)

/-- The creator of the built-in room; empty when it has none. -/
def defaultCreator (mgr : SFURoomManager) : String :=
  ((mgr.getRoom defaultRoomId).map (·.creatorId)).getD ""

/-- What Space admission does in one event: a peer that enters the allow list of a
private room with a creator has that creator's word, and the built-in room's
creator stays. -/
def SpaceAdmissionBound (P : Platform) (Signed : Bytes → Bytes → Prop) (st : SupernodeState) :
    Event → Prop
  | .message env msg _ => ∀ roomId, spaceRoom msg = some roomId →
    (∀ room room', st.sfu.getRoom roomId = some room → room.roomType = .privateRoom →
      room.creatorId ≠ "" → normalizePublicId msg.sender.text ∉ room.allowed →
      (st.trySpaceAdmission P env msg.sender.text roomId msg.payload).1.1.sfu.getRoom roomId =
        some room' →
      normalizePublicId msg.sender.text ∈ room'.allowed →
      OwnerVouches P Signed room.creatorId msg.sender.text roomId env.nowSecs) ∧
    defaultCreator (st.trySpaceAdmission P env msg.sender.text roomId msg.payload).1.1.sfu =
      defaultCreator st.sfu
  | _ => True

/-- A proof that verifies. If it would admit its bearer, who is not on the allow
list, to a private room with a creator, the root it verifies against is the
creator's and the proven node is private. A proof for the built-in room, while
that has no creator, proves a node without an owner. -/
def SpaceProofSafe (P : Platform) (st : SupernodeState) : Event → Prop
  | .message env msg _ => ∀ roomId, spaceRoom msg = some roomId →
    ∀ proof root, SupernodeState.ProofVerifies P st roomId msg.payload proof root →
      (∀ room, st.sfu.getRoom roomId = some room → room.roomType = .privateRoom →
        room.creatorId ≠ "" → normalizePublicId msg.sender.text ∉ room.allowed →
        spaceAdmissionOk P root proof (SupernodeState.presentedGrant P msg.payload)
          msg.sender.text roomId env.nowSecs = true →
        bare root.signer = bare room.creatorId ∧ proof.node.nodeType = "private") ∧
      (roomId = defaultRoomId → defaultCreator st.sfu = "" → proof.node.ownerPub = "")
  | _ => True

/-! ## One event -/

section Creator

variable {mgr : SFURoomManager} {r owner p : String}

theorem getRoom_createRoomWithPolicy_of_ne {r' name : String} {ty : RoomType}
    {creator policy : String} {now : Rat} (hne : r ≠ r') :
    (mgr.createRoomWithPolicy r name ty creator policy now).1.getRoom r' = mgr.getRoom r' := by
  cases hr : mgr.getRoom r with
  | some room => rw [SFURoomManager.createRoomWithPolicy_of_some hr]
  | none =>
    rw [SFURoomManager.createRoomWithPolicy_of_none hr]
    simp [hne]

theorem getRoom_adoptCreatorIfEmpty_of_ne {r' : String} (hne : r ≠ r') :
    (mgr.adoptCreatorIfEmpty r owner).getRoom r' = mgr.getRoom r' := by
  unfold SFURoomManager.adoptCreatorIfEmpty
  split
  · rfl
  · split
    · split
      · simp [hne]
      · rfl
    · rfl

theorem defaultCreator_allowPeer : defaultCreator (mgr.allowPeer r p) = defaultCreator mgr := by
  unfold SFURoomManager.allowPeer
  cases hr : mgr.getRoom r with
  | none => rfl
  | some room =>
    unfold defaultCreator
    simp only [SFURoomManager.getRoom_setRoom]
    split
    · rename_i heq
      rw [← heq, hr]
      rfl
    · rfl

theorem defaultCreator_create {name : String} {ty : RoomType} {policy : String} {now : Rat} :
    defaultCreator (mgr.createRoomWithPolicy r name ty "" policy now).1 = defaultCreator mgr := by
  by_cases heq : r = defaultRoomId
  · subst heq
    unfold defaultCreator
    cases hr : mgr.getRoom defaultRoomId with
    | some room => rw [SFURoomManager.createRoomWithPolicy_of_some hr, hr]
    | none =>
      rw [SFURoomManager.createRoomWithPolicy_of_none hr]
      simp only [SFURoomManager.getRoom_setRoom, if_true, Option.map_some, Option.getD_some,
        freshRoom_creatorId]
      decide
  · unfold defaultCreator
    rw [getRoom_createRoomWithPolicy_of_ne heq]

theorem defaultCreator_adopt (h : r = defaultRoomId → defaultCreator mgr = "" → owner = "") :
    defaultCreator (mgr.adoptCreatorIfEmpty r owner) = defaultCreator mgr := by
  by_cases heq : r = defaultRoomId
  · subst heq
    unfold SFURoomManager.adoptCreatorIfEmpty
    split
    · rfl
    · rename_i howner
      split
      · rename_i room hroom
        split
        · rename_i hcreator
          refine absurd (h rfl ?_) howner
          simp [defaultCreator, hroom, hcreator]
        · rfl
      · rfl
  · unfold defaultCreator
    rw [getRoom_adoptCreatorIfEmpty_of_ne heq]

end Creator

namespace SupernodeState

variable {P : Platform} {env : Env} {st : SupernodeState} {msg : SignalingMessage} {raw : String}
  {Signed : Bytes → Bytes → Prop}

theorem sfuMaterialized_of_owned {roomId : String} {node : SpaceNode} {room : SFURoom}
    (hroom : st.sfu.getRoom roomId = some room) (hcreator : room.creatorId ≠ "") :
    sfuMaterialized env st roomId node = st.sfu := by
  unfold sfuMaterialized
  rw [SFURoomManager.createRoomWithPolicy_of_some hroom]
  unfold SFURoomManager.adoptCreatorIfEmpty
  split
  · rfl
  · simp [hroom, hcreator]

theorem ProofVerifies.root_verified {roomId : String} {payload : Json}
    {proof : SpaceInclusionProof} {root : SignedSpaceRoot}
    (hv : ProofVerifies P st roomId payload proof root) (h : RootsVerified P st.spaceRoots) :
    root.verify P = true := by
  obtain ⟨carried, -, hheld⟩ := hv.held
  exact h.accept carried _ _ hheld

/-- An admission against the creator's root, to a private node, has the creator's
word. -/
theorem ownerVouches_of_safe (unforgeable : ∀ key sig message,
      P.ed25519Verify key sig message = true → Signed key message)
    {roomId : String} {proof : SpaceInclusionProof} {root : SignedSpaceRoot} {owner : String}
    (hroots : RootsVerified P st.spaceRoots)
    (hv : ProofVerifies P st roomId msg.payload proof root)
    (hok : spaceAdmissionOk P root proof (presentedGrant P msg.payload) msg.sender.text roomId
      env.nowSecs = true)
    (hsigner : bare root.signer = bare owner) (hprivate : proof.node.nodeType = "private") :
    OwnerVouches P Signed owner msg.sender.text roomId env.nowSecs := by
  obtain ⟨grant, -, hgrant, hnode, hgrantee, hexpiry⟩ := grant_of_spaceAdmissionOk hok hprivate
  obtain ⟨key, sig, hkey, hsig⟩ := key_of_verifyWithId (hv.root_verified hroots)
  obtain ⟨key', sig', hkey', hsig'⟩ := key_of_verifyWithId hgrant
  cases hkey.symm.trans hkey'
  refine ⟨key, root, proof, grant, ?_, hsigner, unforgeable _ _ _ hsig, hv.node, hv.verifies,
    unforgeable _ _ _ hsig', hnode, hgrantee, hexpiry⟩
  rw [← b64urlDecode_of_bare_eq hsigner, hkey]

theorem spaceAdmissionBound_of_safe (unforgeable : ∀ key sig message,
      P.ed25519Verify key sig message = true → Signed key message)
    (hroots : RootsVerified P st.spaceRoots) {e : Event} (hsafe : SpaceProofSafe P st e) :
    SpaceAdmissionBound P Signed st e := by
  unfold SpaceAdmissionBound
  split
  · rename_i env msg raw
    intro roomId hspace
    by_cases hv : ∃ proof root, ProofVerifies P st roomId msg.payload proof root
    · obtain ⟨proof, root, hv⟩ := hv
      obtain ⟨howned, hdefault⟩ := hsafe roomId hspace proof root hv
      obtain ⟨-, hsfu⟩ := @trySpaceAdmission_of_verifies P env st msg.sender.text roomId
        msg.payload proof root hv
      refine ⟨?_, ?_⟩
      · intro room room' hroom hprivate hcreator hnew hroom' hallowed
        have hok : spaceAdmissionOk P root proof (presentedGrant P msg.payload) msg.sender.text
            roomId env.nowSecs = true := by
          by_contra hno
          rw [hsfu, if_neg hno, sfuMaterialized_of_owned hroom hcreator, hroom] at hroom'
          cases hroom'
          exact hnew hallowed
        obtain ⟨hsigner, hnode⟩ := howned room hroom hprivate hcreator hnew hok
        exact ownerVouches_of_safe unforgeable hroots hv hok hsigner hnode
      · have hmade : defaultCreator (sfuMaterialized env st roomId proof.node) =
            defaultCreator st.sfu := by
          unfold sfuMaterialized
          rw [defaultCreator_adopt, defaultCreator_create]
          rw [defaultCreator_create]
          exact hdefault
        rw [hsfu]
        split
        · rw [defaultCreator_allowPeer, SFURoomManager.createRoom, defaultCreator_create, hmade]
        · exact hmade
    · push Not at hv
      obtain ⟨-, hsfu⟩ := @trySpaceAdmission_of_not_verifies P env st msg.sender.text roomId
        msg.payload hv
      rw [hsfu]
      refine ⟨?_, rfl⟩
      intro room room' hroom _ _ hnew hroom' hallowed
      cases hroom.symm.trans hroom'
      exact absurd hallowed hnew
  · trivial

/-! ## Runs -/

/-- Along every run whose Space proofs are safe, whoever enters the allow list of
an owned private room by a proof has the owner's signed root and signed grant,
and nobody becomes the creator of the built-in room. -/
theorem spaceAdmission_bound_to_owner (Signed : Bytes → Bytes → Prop)
    (unforgeable : ∀ key sig message, P.ed25519Verify key sig message = true →
      Signed key message)
    (config : Config) (peers : PeerStore) (handshake : HandshakeManager) (es : List Event)
    (hsafe : Along (SupernodeState.step P) (SpaceProofSafe P) (.start config peers handshake) es) :
    Along (SupernodeState.step P) (SpaceAdmissionBound P Signed)
      (.start config peers handshake) es := by
  refine hsafe.imp_inv (fun s : SupernodeState => RootsVerified P s.spaceRoots) ?_
    (fun s e hs _ => step_verified hs e) fun s e hs he => spaceAdmissionBound_of_safe unforgeable hs he
  intro spaceId root hroot
  simp [SupernodeState.start, SpaceRootStore.new, SpaceRootStore.get] at hroot

end SupernodeState

/-! ## Concrete runs -/

def denNode (signer : PublicId) (nodeType : String) : SpaceNode where
  nodeId := "den"
  parentId := ""
  kind := "room"
  name := "Den"
  nodeType := nodeType
  ownerPub := signer.text
  invitePolicy := "owner"
  inherit := false
  keyCommit := ""

/-- The signer's root over that one node. -/
def denRoot (signer : PublicId) (nodeType : String) : SignedSpaceRoot where
  schema := 1
  spaceId := "space"
  epoch := 1
  rootHash := hexEncode ((denNode signer nodeType).leafHash (platformOf signer))
  nodeCount := 1
  issuedAt := 0
  signer := signer.text
  signature := "signed"

def denProof (signer : PublicId) (nodeType : String) : SpaceInclusionProof where
  schema := 1
  node := denNode signer nodeType
  leafIndex := 0
  path := []
  epoch := 1

def bobProves (signer : PublicId) (nodeType : String) : SignalingMessage where
  msgType := .sfuJoin
  sender := bob
  payload := .obj [("room_id", .str "den"),
    ("space_proof", .obj [("schema", .int 1),
      ("node", .obj (denNode signer nodeType).canonicalJson), ("leaf_index", .int 0),
      ("path", .arr []), ("epoch", .int 1)]),
    ("space_root", .obj [("schema", .int 1), ("space_id", .str "space"), ("epoch", .int 1),
      ("root_hash", .str (denRoot signer nodeType).rootHash), ("node_count", .int 1),
      ("issued_at", .int 0), ("signer", .str signer.text), ("signature", .str "signed")]),
    ("space_grant", .obj [("schema", .int 1), ("node_id", .str "den"), ("epoch", .int 1),
      ("grantee_pub", .str bob.text), ("expires_at", .int 0), ("signature", .str "signed")])]
  signature := none

def alicesDen : List Event :=
  [.message .permissive
    { msgType := .sfuRoomCreate, sender := alice,
      payload := .obj [("room_id", .str "den"), ("room_type", .str "private")],
      signature := none } ""]

/-- The state in which Bob's proof arrives. -/
def withDen (signer : PublicId) : SupernodeState :=
  run (.step (platformOf signer)) openNode alicesDen

/-- With Alice's root and Alice's grant Bob is admitted to Alice's room. -/
theorem spaceAdmission_bound_in_alicesDen :
    (((withDen alice).onMessage (platformOf alice) .permissive (bobProves alice "private")
      "").1.sfu.getRoom "den").map (·.allowed.contains bob.text) = some true ∧
    Along (SupernodeState.step (platformOf alice))
      (SpaceAdmissionBound (platformOf alice) fun key _ => key = utf8Bytes (bare alice.text))
      openNode (alicesDen ++ [.message .permissive (bobProves alice "private") ""]) := by
  refine ⟨by decide +kernel, ?_⟩
  apply SupernodeState.spaceAdmission_bound_to_owner
  · intro key sig message hver
    exact eq_of_beq hver
  · refine ⟨?_, ?_, trivial⟩
    · intro roomId hroom
      cases hroom
    · intro roomId hroom proof root hv
      cases hroom
      have hproof : ((bobProves alice "private").payload.get? "space_proof").bind
          (platformOf alice).spaceProofFromValue = some (denProof alice "private") := by
        decide +kernel
      have hcarried : ((bobProves alice "private").payload.get? "space_root").bind
          (platformOf alice).spaceRootFromValue = some (denRoot alice "private") := by
        decide +kernel
      have hheld : ((withDen alice).spaceRoots.accept (platformOf alice)
          (denRoot alice "private")).1.get "space" = some (denRoot alice "private") := by
        decide +kernel
      have hcreator : ((withDen alice).sfu.getRoom "den").map (·.creatorId) = some alice.text := by
        decide +kernel
      cases hproof.symm.trans hv.proof_eq
      obtain ⟨carried, hcarried', hheld'⟩ := hv.held
      cases hcarried.symm.trans hcarried'
      cases hheld.symm.trans hheld'
      refine ⟨?_, ?_⟩
      · intro room hden _ _ _ _
        have hden : (withDen alice).sfu.getRoom "den" = some room := hden
        rw [hden] at hcreator
        have hcreator : room.creatorId = alice.text := Option.some.inj hcreator
        rw [hcreator]
        exact ⟨rfl, rfl⟩
      · intro hdefault
        revert hdefault
        decide +kernel

/-- With a root of his own over a public node Bob is admitted to Alice's private
room, although Alice has never signed anything. -/
theorem foreignRoot_admits :
    ¬ Along (SupernodeState.step (platformOf bob))
      (SpaceAdmissionBound (platformOf bob) fun key _ => key = utf8Bytes (bare bob.text))
      openNode (alicesDen ++ [.message .permissive (bobProves bob "public") ""]) := by
  rw [along_append]
  rintro ⟨-, hbob, -⟩
  have hbob : SpaceAdmissionBound (platformOf bob) (fun key _ => key = utf8Bytes (bare bob.text))
      (withDen bob) (.message .permissive (bobProves bob "public") "") := hbob
  have hbefore : ((withDen bob).sfu.getRoom "den").map (fun room =>
      (room.roomType, room.creatorId, room.allowed.contains bob.text)) =
        some (.privateRoom, alice.text, false) := by
    decide +kernel
  have hafter : (((withDen bob).trySpaceAdmission (platformOf bob) .permissive
      (bobProves bob "public").sender.text "den"
      (bobProves bob "public").payload).1.1.sfu.getRoom "den").map
        (·.allowed.contains bob.text) = some true := by
    decide +kernel
  obtain ⟨room, hroom, hfields⟩ := Option.map_eq_some_iff.mp hbefore
  obtain ⟨room', hroom', hallowed⟩ := Option.map_eq_some_iff.mp hafter
  simp only [Prod.mk.injEq] at hfields
  obtain ⟨hprivate, hcreator, hout⟩ := hfields
  have hcanon : normalizePublicId bob.text = bob.text := by decide
  obtain ⟨key, _, _, _, hkey, -, hsigned, -⟩ := (hbob "den" rfl).1 room room' hroom hprivate
    (by rw [hcreator]; decide)
    (by
      change normalizePublicId bob.text ∉ room.allowed
      rw [hcanon, Std.ExtTreeSet.mem_iff_contains, hout]
      decide)
    hroom'
    (by
      change normalizePublicId bob.text ∈ room'.allowed
      rw [hcanon, Std.ExtTreeSet.mem_iff_contains]
      exact hallowed)
  rw [hcreator, hsigned] at hkey
  revert hkey
  decide +kernel

/-! ## Held roots along every run -/

/-- A held root carries a signature that verifies and is held under its own space. -/
def SpaceRootStore.Sound (P : Platform) (store : SpaceRootStore) : Prop :=
  ∀ spaceId root, store.get spaceId = some root → root.verify P = true ∧ root.spaceId = spaceId

/-- The later store holds every root of the earlier one or a newer root of the same
signer in its place. -/
def SpaceRootStore.Follows (store later : SpaceRootStore) : Prop :=
  ∀ spaceId root, store.get spaceId = some root → ∃ root', later.get spaceId = some root' ∧
    root'.signer = root.signer ∧ (root' = root ∨ root.epoch < root'.epoch)

namespace SpaceRootStore

variable {P : Platform} {store : SpaceRootStore}

theorem accept_cases (store : SpaceRootStore) (root : SignedSpaceRoot) :
    (store.accept P root).1.roots = store.roots ∨
      (store.accept P root).1.roots = store.roots.insert root.spaceId root ∧
        root.verify P = true ∧ ∀ existing, store.get root.spaceId = some existing →
          root.signer = existing.signer ∧ existing.epoch < root.epoch := by
  unfold accept
  split
  · exact .inl rfl
  · next hver =>
    have hver : root.verify P = true := by simpa using hver
    dsimp only
    split
    · next hnone =>
      refine .inr ⟨rfl, hver, fun existing hold => ?_⟩
      rw [hnone] at hold
      cases hold
    · next existing hexisting =>
      split
      · exact .inl rfl
      · next hsigner =>
        split
        · exact .inl rfl
        · split
          · exact .inl rfl
          · next hnewer =>
            refine .inr ⟨rfl, hver, fun existing' hold => ?_⟩
            obtain rfl := Option.some.inj (hexisting.symm.trans hold)
            exact ⟨(not_not.mp hsigner).symm, Nat.lt_of_not_le hnewer⟩

theorem Sound.accept (h : store.Sound P) (root : SignedSpaceRoot) :
    (store.accept P root).1.Sound P := by
  intro spaceId held hheld
  rcases accept_cases store root with heq | ⟨heq, hver, -⟩
  · exact h spaceId held (by rwa [get, heq] at hheld)
  · rw [get, heq, Std.ExtTreeMap.getElem?_insert] at hheld
    split at hheld
    · next hspace =>
      cases hheld
      exact ⟨hver, Std.compare_eq_iff_eq.mp hspace⟩
    · exact h spaceId held hheld

theorem Follows.refl (store : SpaceRootStore) : store.Follows store :=
  fun _ root hheld => ⟨root, hheld, rfl, .inl rfl⟩

theorem Follows.accept {later : SpaceRootStore} (h : store.Follows later) (root : SignedSpaceRoot) :
    store.Follows (later.accept P root).1 := by
  intro spaceId held hheld
  obtain ⟨held', hheld', hsigner, hnewer⟩ := h spaceId held hheld
  rcases accept_cases later root with heq | ⟨heq, -, hreplaces⟩
  · exact ⟨held', by rwa [get, heq], hsigner, hnewer⟩
  · rw [get, heq, Std.ExtTreeMap.getElem?_insert]
    split
    · next hspace =>
      obtain ⟨hsame, hlt⟩ := hreplaces held' (Std.compare_eq_iff_eq.mp hspace ▸ hheld')
      refine ⟨root, rfl, hsame.trans hsigner, .inr ?_⟩
      rcases hnewer with rfl | hbefore
      · exact hlt
      · exact hbefore.trans hlt
    · exact ⟨held', hheld', hsigner, hnewer⟩

end SpaceRootStore

namespace SupernodeState

variable {P : Platform} {st : SupernodeState}

theorem step_spaceRoots (st : SupernodeState) (e : Event) :
    (st.step P e).spaceRoots = st.spaceRoots ∨
      ∃ root, (st.step P e).spaceRoots = (st.spaceRoots.accept P root).1 := by
  by_cases hgame : ∃ s p b, e = .gameDatagram s p b
  · obtain ⟨s, p, b, rfl⟩ := hgame
    unfold SupernodeState.step handle replicateGameDatagram
    dsimp only
    split
    · exact .inl rfl
    · exact .inl rfl
  · by_cases hrepl : ∃ env r i raw, e = .replicated env r i raw
    · obtain ⟨env, r, i, raw, rfl⟩ := hrepl
      unfold SupernodeState.step handle
      rw [deliverReplicatedRoomFrame_state]
      exact .inl rfl
    · push Not at hgame hrepl
      exact (handle_keepsLink hgame hrepl).spaceRoots

/-- Whatever reaches a node from its start on, each root it holds verifies and is of the
space it is held for; and from any state it reaches on, the root of a space is only ever
replaced by a newer one of the same signer. -/
theorem held_roots_follow (config : Config) (peers : PeerStore) (handshake : HandshakeManager)
    (es later : List Event) :
    (run (step P) (.start config peers handshake) es).spaceRoots.Sound P ∧
      (run (step P) (.start config peers handshake) es).spaceRoots.Follows
        (run (step P) (.start config peers handshake) (es ++ later)).spaceRoots := by
  refine ⟨run_inv (fun st : SupernodeState => st.spaceRoots.Sound P) ?_ fun st e h => ?_, ?_⟩
  · intro spaceId root hheld
    cases (Std.ExtTreeMap.getElem?_empty).symm.trans hheld
  · rcases step_spaceRoots st e with heq | ⟨root, heq⟩
    · rw [heq]
      exact h
    · rw [heq]
      exact h.accept root
  · rw [run_append]
    generalize run (step P) (.start config peers handshake) es = first
    refine run_inv (fun st : SupernodeState => first.spaceRoots.Follows st.spaceRoots) (.refl _)
      fun st e h => ?_
    rcases step_spaceRoots st e with heq | ⟨root, heq⟩
    · rw [heq]
      exact h
    · rw [heq]
      exact h.accept root

end SupernodeState

end ConquerD.Supernode
