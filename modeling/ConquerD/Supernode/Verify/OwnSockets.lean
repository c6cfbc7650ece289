import ConquerD.Lib.Slice
import ConquerD.Supernode.Sockets

/-!
# Sockets and the holders of their keys

A frame that passes the checks was signed by its sender, and that is all it says:
who brings it is registered as that sender, be it somebody else who came by a frame
meant for another recipient. Where the first frame that passes on every connection
is the opener's own, a target is reached by nobody but the holder of its key.
-/

namespace ConquerD.Supernode

open ConquerD.Features Lib.Encoding Lib.Run Lib.Slice Wire
open Std (ExtTreeMap)

variable {τ : Type} (P : Platform) (C : Codec τ)

/-! ## What is asked -/

def Names (target : String) (key : Bytes) : Prop :=
  key.length = 32 ∧ (P.b64urlDecode target = some key ∨ target = P.derivePeerId key)

/-- What the library promises of keys: base64 of 32 bytes has 43 characters, and the
hashes of two keys have 32 bytes and differ. -/
structure KeyTexts : Prop where
  size : ∀ s key, P.decodeB64UrlNoPad s = some key → key.length = 32 → s.utf8ByteSize = 43
  digest : ∀ key, key.length = 32 → (P.sha256 key).length = 32
  collisionFree : ∀ a b, a.length = 32 → b.length = 32 → P.sha256 a = P.sha256 b → a = b

/-- Whoever opened the connection holds the key. -/
def HeldAt (connections : List WsConnection) (c : Nat) (key : Bytes) : Prop :=
  ∃ conn, connections[c]? = some conn ∧ key ∈ conn.held

/-- A connection is registered under a sender only if the holder of the key opened it
or signed a message for this node, and what is relayed to a target reaches the holder
of every key the target names. `Signed` tells who signed what. -/
structure OwnSockets (Signed : Bytes → Envelope τ → Prop) (s : WsServer) : Prop where
  registered : ∀ (p : String) (c : Nat), s.state.peerSockets[p]? = some c →
    ∃ key, P.b64urlDecode p = some key ∧
      (HeldAt s.connections c key ∨ ∃ m, Signed key m ∧ m.target = some s.ourId)
  relayed : ∀ r ∈ s.relayed, ∀ key, Names P r.target key → HeldAt s.connections r.connection key

/-- The first frame that passes the checks on a connection is its opener's own. -/
def FirstIsOwn (s : WsServer) : WsEvent → Prop
  | .text c f => ∀ conn m, s.connections[c]? = some conn → conn.closed = false →
      conn.peerId = none → (checkFrame P C s.replayGuard conn f).1 = some m →
      ∀ key, P.b64urlDecode m.sender = some key → key ∈ conn.held
  | _ => True

/-! ## The invariant -/

/-- Sockets lead to the holders of the keys they are filed under, and aliases to keys. -/
structure SocketsInv (s : WsServer) : Prop where
  sockets : ∀ (p : String) (c : Nat), s.state.peerSockets[p]? = some c →
    ∃ key, P.b64urlDecode p = some key ∧ key.length = 32 ∧ HeldAt s.connections c key
  aliases : ∀ a p : String, s.state.peerIdAliases[a]? = some p →
    ∃ key, P.b64urlDecode p = some key ∧ key.length = 32 ∧ a = P.derivePeerId key
  relayed : ∀ r ∈ s.relayed, ∀ key, Names P r.target key → HeldAt s.connections r.connection key

variable {P} in
theorem SocketsInv.own {Signed : Bytes → Envelope τ → Prop} {s : WsServer}
    (h : SocketsInv P s) : OwnSockets P Signed s where
  registered p c hp := by
    obtain ⟨key, hkey, -, hheld⟩ := h.sockets p c hp
    exact ⟨key, hkey, .inl hheld⟩
  relayed := h.relayed

theorem socketsInv_start (ourId : String) : SocketsInv P (.start ourId) where
  sockets p c h := by simp [WsServer.start, SignalingState.new] at h
  aliases a p h := by simp [WsServer.start, SignalingState.new] at h
  relayed r h := nomatch h

/-! ## Texts of keys -/

section Texts

variable {P}

theorem b64urlDecode_eq_of_mem_variants {target key : String}
    (h : key ∈ identityKeyVariants target) : P.b64urlDecode key = P.b64urlDecode target := by
  have hbare : bare key = bare target := by
    unfold identityKeyVariants at h
    rcases List.mem_append.mp h with h | h
    · rcases List.mem_append.mp h with h | h
      · rw [List.mem_singleton.mp h]
      · split at h
        · rw [List.mem_singleton.mp h, bare_normalizePublicId]
        · cases h
    · split at h
      · rw [List.mem_singleton.mp h, bare_bare]
      · cases h
  rw [Platform.b64urlDecode, Platform.b64urlDecode, hbare]

theorem KeyTexts.derivePeerId_no_key (h : KeyTexts P) {key key' : Bytes}
    (hkey : key.length = 32) (hkey' : key'.length = 32) :
    P.b64urlDecode (P.derivePeerId key) ≠ some key' := by
  intro hdecode
  have hpad : '=' ∉ (P.derivePeerId key).toList := pad_notMem_hexEncode _
  have hbare : bare (P.derivePeerId key) = P.derivePeerId key :=
    Lib.Text.trimEndMatches_of_notMem hpad
  rw [Platform.b64urlDecode, hbare] at hdecode
  have hsize := h.size _ _ hdecode hkey'
  have hlen : (P.derivePeerId key).utf8ByteSize = 64 := by
    rw [Platform.derivePeerId, Platform.sha256Hex, utf8ByteSize_hexEncode, h.digest key hkey]
  omega

theorem KeyTexts.eq_of_derivePeerId_eq (h : KeyTexts P) {key key' : Bytes}
    (hkey : key.length = 32) (hkey' : key'.length = 32)
    (heq : P.derivePeerId key = P.derivePeerId key') : key = key' :=
  h.collisionFree key key' hkey hkey' (hexEncode_injective heq)

end Texts

/-! ## Targets -/

variable {P}

theorem SocketsInv.heldAt_of_socketForTarget {s : WsServer} (h : SocketsInv P s)
    (hP : KeyTexts P) {target : String} {c : Nat}
    (hfound : s.state.socketForTarget target = some c) {key : Bytes}
    (hkey : Names P target key) : HeldAt s.connections c key := by
  obtain ⟨hlen, hnamed⟩ := hkey
  unfold SignalingState.socketForTarget at hfound
  split at hfound
  · next c' hvariant =>
    obtain rfl := Option.some.inj hfound
    obtain ⟨v, hv, hsocket⟩ := List.exists_of_findSome?_eq_some hvariant
    obtain ⟨key', hkey', hlen', hheld⟩ := h.sockets v _ hsocket
    rw [b64urlDecode_eq_of_mem_variants hv] at hkey'
    rcases hnamed with hdecode | rfl
    · obtain rfl := Option.some.inj (hdecode.symm.trans hkey')
      exact hheld
    · exact absurd hkey' (hP.derivePeerId_no_key hlen hlen')
  · obtain ⟨p, halias, hsocket⟩ := Option.bind_eq_some_iff.mp hfound
    obtain ⟨key', hkey', hlen', hheld⟩ := h.sockets p c hsocket
    obtain ⟨key'', hkey'', hlen'', htarget⟩ := h.aliases target p halias
    obtain rfl := Option.some.inj (hkey'.symm.trans hkey'')
    rcases hnamed with hdecode | heq
    · exact absurd (htarget ▸ hdecode) (hP.derivePeerId_no_key hlen' hlen)
    · rw [hP.eq_of_derivePeerId_eq hlen hlen' (heq.symm.trans htarget)]
      exact hheld

/-! ## Holders stay -/

theorem HeldAt.set {connections : List WsConnection} {c c' : Nat} {conn conn' : WsConnection}
    {key : Bytes} (h : HeldAt connections c' key) (hconn : connections[c]? = some conn)
    (hheld : conn'.held = conn.held) : HeldAt (connections.set c conn') c' key := by
  obtain ⟨d, hd, hkey⟩ := h
  by_cases hc : c = c'
  · subst hc
    obtain rfl := Option.some.inj (hconn.symm.trans hd)
    have hlt : c < connections.length := (List.getElem?_eq_some_iff.mp hconn).1
    exact ⟨conn', List.getElem?_set_self hlt, hheld ▸ hkey⟩
  · exact ⟨d, by rw [List.getElem?_set_ne hc]; exact hd, hkey⟩

theorem HeldAt.append {connections : List WsConnection} {c : Nat} {key : Bytes}
    (h : HeldAt connections c key) (more : List WsConnection) :
    HeldAt (connections ++ more) c key := by
  obtain ⟨d, hd, hkey⟩ := h
  have hlt : c < connections.length := (List.getElem?_eq_some_iff.mp hd).1
  exact ⟨d, by rw [List.getElem?_append_left hlt]; exact hd, hkey⟩

/-- The invariant outlives a change of the connections that leaves the holders. -/
theorem SocketsInv.mono {s s' : WsServer} (h : SocketsInv P s) (hstate : s'.state = s.state)
    (hrelayed : s'.relayed = s.relayed)
    (hheld : ∀ c key, HeldAt s.connections c key → HeldAt s'.connections c key) :
    SocketsInv P s' where
  sockets p c hp := by
    rw [hstate] at hp
    obtain ⟨key, hkey, hlen, hat⟩ := h.sockets p c hp
    exact ⟨key, hkey, hlen, hheld c key hat⟩
  aliases a p hp := h.aliases a p (hstate ▸ hp)
  relayed r hr key hkey := hheld _ _ (h.relayed r (hrelayed ▸ hr) key hkey)

/-! ## The checks -/

variable {C} {guard : ReplayGuard} {conn : WsConnection} {f : WsFrame}

theorem held_countFrame (conn : WsConnection) (mt : τ) (instant : Rat) :
    (conn.countFrame C mt instant).1.held = conn.held ∧
      (conn.countFrame C mt instant).1.peerId = conn.peerId := by
  unfold WsConnection.countFrame
  split
  · exact ⟨rfl, rfl⟩
  · dsimp only
    split <;> exact ⟨rfl, rfl⟩

/-- The checks leave the opener and the registration of a connection alone. -/
theorem held_checkFrame (guard : ReplayGuard) (conn : WsConnection) (f : WsFrame) :
    (checkFrame P C guard conn f).2.2.held = conn.held ∧
      (checkFrame P C guard conn f).2.2.peerId = conn.peerId := by
  unfold checkFrame
  split
  · exact ⟨rfl, rfl⟩
  · split
    · exact ⟨rfl, rfl⟩
    · next parsed _ =>
      have hcount := held_countFrame (C := C) conn parsed.msgType f.instant
      dsimp only
      split
      · exact hcount
      · split
        · exact hcount
        · split
          · exact hcount
          · split <;> exact hcount

theorem key_of_verify {m : Envelope τ} (h : Signaling.verify P C m = true) :
    ∃ key, P.b64urlDecode m.sender = some key ∧ key.length = 32 := by
  unfold Signaling.verify at h
  split at h
  · cases h
  · split at h
    · next sigBytes pubBytes _ hpub =>
      refine ⟨pubBytes, hpub, ?_⟩
      by_contra hlen
      rw [Signaling.verifyWithPub, if_pos (.inl hlen)] at h
      cases h
    · cases h

theorem verify_of_checkFrame {m : Envelope τ} (h : (checkFrame P C guard conn f).1 = some m) :
    Signaling.verify P C m = true := by
  unfold checkFrame at h
  split at h
  · cases h
  · split at h
    · cases h
    · next parsed _ =>
      dsimp only at h
      split at h
      · cases h
      · split at h
        · cases h
        · next hchecks =>
          have hverified : Signaling.verify P C parsed = true := by
            by_contra hnot
            exact hchecks (by simp [hnot])
          split at h
          · obtain rfl := Option.some.inj h
            exact hverified
          · split at h
            · cases h
            · dsimp only at h
              split at h
              · obtain rfl := Option.some.inj h
                exact hverified
              · cases h

/-! ## Steps -/

variable {s : WsServer} {c : Nat}

theorem SocketsInv.registerSocket (h : SocketsInv P s) {sender : String} {key : Bytes}
    (hkey : P.b64urlDecode sender = some key) (hlen : key.length = 32)
    (hheld : HeldAt s.connections c key) :
    SocketsInv P { s with state := s.state.registerSocket P sender c } where
  sockets p c' hp := by
    simp only [SignalingState.registerSocket] at hp
    rw [ExtTreeMap.getElem?_insert] at hp
    split at hp
    · next heq =>
      obtain rfl := Std.compare_eq_iff_eq.mp heq
      obtain rfl := Option.some.inj hp
      exact ⟨key, hkey, hlen, hheld⟩
    · exact h.sockets p c' hp
  aliases a p hp := by
    have halias : peerIdAliasFor P sender = some (P.derivePeerId key) := by
      rw [peerIdAliasFor, hkey]
      exact if_neg (not_not_intro hlen)
    simp only [SignalingState.registerSocket, halias] at hp
    rw [ExtTreeMap.getElem?_insert] at hp
    split at hp
    · next heq =>
      obtain rfl := Option.some.inj hp
      exact ⟨key, hkey, hlen, (Std.compare_eq_iff_eq.mp heq).symm⟩
    · exact h.aliases a p hp
  relayed := h.relayed

theorem SocketsInv.register (h : SocketsInv P s) {conn conn' : WsConnection}
    (hconn : s.connections[c]? = some conn) (hsame : conn'.held = conn.held)
    {sender : String} {key : Bytes} (hkey : P.b64urlDecode sender = some key)
    (hlen : key.length = 32) (hown : conn'.peerId = none → key ∈ conn.held) :
    SocketsInv P (s.register P c conn' sender) := by
  unfold WsServer.register
  split
  · next hnone =>
    have hmoved : SocketsInv P
        { s with connections := s.connections.set c { conn' with peerId := some sender } } :=
      h.mono rfl rfl fun c' key' hat => hat.set hconn hsame
    refine hmoved.registerSocket hkey hlen ?_
    have hat : HeldAt s.connections c key := ⟨conn, hconn, hown (Option.isNone_iff_eq_none.mp hnone)⟩
    exact hat.set hconn hsame
  · exact h.mono rfl rfl fun c' key' hat => hat.set hconn hsame

theorem SocketsInv.relay (h : SocketsInv P s) (hP : KeyTexts P) (m : Envelope τ) (f : WsFrame) :
    SocketsInv P (s.relay m f) := by
  unfold WsServer.relay
  split
  · exact h
  · split
    · exact h
    · split
      · exact h
      · next target _ _ c' hfound =>
        split
        · refine ⟨h.sockets, h.aliases, fun r hr key hkey => ?_⟩
          rcases List.mem_cons.mp hr with rfl | hr
          · exact h.heldAt_of_socketForTarget hP hfound hkey
          · exact h.relayed r hr key hkey
        · exact h

theorem SocketsInv.onText (h : SocketsInv P s) (hP : KeyTexts P) {conn : WsConnection}
    (hconn : s.connections[c]? = some conn)
    (hown : ∀ m, conn.peerId = none → (checkFrame P C s.replayGuard conn f).1 = some m →
      ∀ key, P.b64urlDecode m.sender = some key → key ∈ conn.held) :
    SocketsInv P (s.onText P C c conn f) := by
  obtain ⟨hheld, hpeer⟩ := held_checkFrame (P := P) (C := C) s.replayGuard conn f
  have hguard : SocketsInv P
      { s with replayGuard := (checkFrame P C s.replayGuard conn f).2.1 } :=
    h.mono rfl rfl fun _ _ hat => hat
  unfold WsServer.onText
  dsimp only
  split
  · exact hguard.mono rfl rfl fun c' key' hat => hat.set hconn hheld
  · next parsed hparsed =>
    obtain ⟨key, hkey, hlen⟩ := key_of_verify (verify_of_checkFrame hparsed)
    refine SocketsInv.relay ?_ hP parsed f
    refine hguard.register hconn hheld hkey hlen fun hnone => ?_
    exact hown parsed (hpeer ▸ hnone) hparsed key hkey

/-- A frame leaves the name of the node and the holders of the connections alone. -/
theorem held_onText (hconn : s.connections[c]? = some conn) :
    (s.onText P C c conn f).ourId = s.ourId ∧
      ∀ d : Nat, (s.onText P C c conn f).connections[d]?.map WsConnection.held =
        s.connections[d]?.map WsConnection.held := by
  have hset : ∀ conn' : WsConnection, conn'.held = conn.held → ∀ d : Nat,
      (s.connections.set c conn')[d]?.map WsConnection.held = s.connections[d]?.map WsConnection.held := by
    intro conn' hsame d
    rw [List.getElem?_set]
    split
    · next heq =>
      subst heq
      have hlt : c < s.connections.length := (List.getElem?_eq_some_iff.mp hconn).1
      rw [if_pos hlt, hconn]
      exact congrArg some hsame
    · rfl
  obtain ⟨hheld, -⟩ := held_checkFrame (P := P) (C := C) s.replayGuard conn f
  have hrelay : ∀ (s' : WsServer) (m : Envelope τ), (s'.relay m f).ourId = s'.ourId ∧
      (s'.relay m f).connections = s'.connections := by
    intro s' m
    unfold WsServer.relay
    split
    · exact ⟨rfl, rfl⟩
    · split
      · exact ⟨rfl, rfl⟩
      · split
        · exact ⟨rfl, rfl⟩
        · split <;> exact ⟨rfl, rfl⟩
  unfold WsServer.onText
  dsimp only
  split
  · exact ⟨rfl, hset _ hheld⟩
  · next parsed _ =>
    rw [(hrelay _ parsed).1, (hrelay _ parsed).2]
    unfold WsServer.register
    split
    · exact ⟨rfl, hset _ hheld⟩
    · exact ⟨rfl, hset _ hheld⟩

theorem step_text (hconn : s.connections[c]? = some conn) (hopen : conn.closed = false) :
    s.step P C (.text c f) = s.onText P C c conn f := by
  simp [WsServer.step, hconn, hopen]

theorem SocketsInv.removePeerSocket (h : SocketsInv P s) (pid : String) (count : Nat) :
    SocketsInv P
      { s with state := { s.state.removePeerSocket pid with connectedCount := count } } where
  sockets p c' hp := by
    simp only [SignalingState.removePeerSocket] at hp
    rw [ExtTreeMap.getElem?_erase] at hp
    split at hp
    · cases hp
    · exact h.sockets p c' hp
  aliases a p hp := by
    simp only [SignalingState.removePeerSocket] at hp
    rw [ExtTreeMap.getElem?_filter'] at hp
    obtain ⟨halias, -⟩ := Option.filter_eq_some_iff.mp hp
    exact h.aliases a p halias
  relayed := h.relayed

theorem SocketsInv.onClosed (h : SocketsInv P s) {conn : WsConnection}
    (hconn : s.connections[c]? = some conn) : SocketsInv P (s.onClosed c conn) := by
  have hclosed : SocketsInv P
      { s with connections := s.connections.set c { conn with closed := true } } :=
    h.mono rfl rfl fun c' key' hat => hat.set hconn rfl
  unfold WsServer.onClosed
  dsimp only
  split
  · exact hclosed
  · next pid _ =>
    split
    · exact (hclosed.removePeerSocket pid _).mono rfl rfl fun _ _ hat => hat
    · exact hclosed

theorem SocketsInv.step (h : SocketsInv P s) (hP : KeyTexts P) {e : WsEvent}
    (he : FirstIsOwn P C s e) : SocketsInv P (s.step P C e) := by
  cases e with
  | opened held instant => exact h.mono rfl rfl fun _ _ hat => hat.append _
  | text c f =>
    simp only [WsServer.step]
    split
    · exact h
    · next conn hconn =>
      split
      · exact h
      · next hopen =>
        have hfalse : conn.closed = false := by simpa using hopen
        exact h.onText hP hconn fun m hnone hm => he conn m hconn hfalse hnone hm
  | closed c =>
    simp only [WsServer.step]
    split
    · exact h
    · next conn hconn =>
      split
      · exact h
      · exact h.onClosed hconn

/-! ## Runs -/

/-- Where the first frame that passes on every connection is its opener's own, sockets are
registered to holders only, and nobody else gets what is relayed, at every step. -/
theorem along_ownSockets (hP : KeyTexts P) (Signed : Bytes → Envelope τ → Prop) (ourId : String)
    {es : List WsEvent} (hes : Along (WsServer.step P C) (FirstIsOwn P C) (.start ourId) es) :
    Along (WsServer.step P C) (fun s e => OwnSockets P Signed (s.step P C e)) (.start ourId) es :=
  hes.imp_inv (SocketsInv P) (socketsInv_start P ourId) (fun _ _ hs he => hs.step hP he)
    fun _ _ hs he => (hs.step hP he).own

/-! ### A note that is brought by another -/

def noteText : String :=
  "\x7b\"type\":\"ping\",\"sender\":\"" ++ onesId ++
    "\",\"target\":\"friend\",\"timestamp\":0,\"signature\":\"" ++ twosSignature ++ "\"\x7d"

def noteJson : Json :=
  .obj [("type", .str "ping"), ("sender", .str onesId), ("target", .str "friend"),
    ("timestamp", .int 0), ("signature", .str twosSignature)]

/-- A platform that reads the note. -/
def notePlatform : Platform :=
  { Platform.oneKey with jsonFromStr := fun s => if s = noteText then some noteJson else none }

/-- Pings are the only messages. -/
def noteCodec : Codec Unit where
  typeFromValue j := if j.asStr? = some "ping" then some () else none
  asWireStr _ := "ping"
  asF64 j := j.asI64?.map fun n => (n : Rat)
  fromF64 _ := .null

/-- The key of the sender. -/
def onesKey : Bytes := List.replicate 32 1

/-- Someone who holds these keys connects and brings the note. -/
def noteRun (held : Set Bytes) : List WsEvent :=
  [.opened held 0, .text 0 ⟨noteText, 0, 0, true⟩]

theorem eq_onesKey {s : String} {key : Bytes} (hkey : notePlatform.decodeB64UrlNoPad s = some key)
    (hlen : key.length = 32) : s = onesId ∧ key = onesKey := by
  simp only [notePlatform, Platform.oneKey] at hkey
  split at hkey
  · next h => exact ⟨h, (Option.some.inj hkey).symm⟩
  · split at hkey
    · rw [← Option.some.inj hkey, List.length_replicate] at hlen
      cases hlen
    · cases hkey

theorem notePlatform_keyTexts : KeyTexts notePlatform where
  size s key hkey hlen := by
    rw [(eq_onesKey hkey hlen).1]
    decide +kernel
  digest _ hlen := hlen
  collisionFree _ _ _ _ h := h

/-- The holder of the key brings the note itself. -/
theorem along_ownSockets_note :
    Along (WsServer.step notePlatform noteCodec)
      (fun s e => OwnSockets notePlatform (fun _ (m : Envelope Unit) => m.target = some "friend")
        (s.step notePlatform noteCodec e))
      (.start "node") (noteRun {onesKey}) := by
  refine along_ownSockets notePlatform_keyTexts _ "node" ⟨trivial, ?_, trivial⟩
  intro conn m hconn _ _ hm key hkey
  obtain ⟨key', hkey', hlen⟩ := key_of_verify (verify_of_checkFrame hm)
  obtain rfl := Option.some.inj (hkey'.symm.trans hkey)
  obtain rfl := Option.some.inj hconn
  exact (eq_onesKey hkey' hlen).2

/-- The sender has signed nothing for this node, and whoever brings the note, without any
key, is registered as the sender. -/
theorem note_bringer_is_registered :
    ¬ Along (WsServer.step notePlatform noteCodec)
      (fun s e => OwnSockets notePlatform (fun _ (m : Envelope Unit) => m.target = some "friend")
        (s.step notePlatform noteCodec e))
      (.start "node") (noteRun ∅) := by
  rintro ⟨-, hown, -⟩
  obtain ⟨key, -, hheld⟩ := hown.registered onesId 0 (by decide +kernel)
  let s₁ := (WsServer.start "node").step notePlatform noteCodec (.opened ∅ 0)
  let f₁ : WsFrame := ⟨noteText, 0, 0, true⟩
  have hstep : s₁.step notePlatform noteCodec (.text 0 f₁) =
      s₁.onText notePlatform noteCodec 0 ⟨∅, none, 0, 0, false⟩ f₁ :=
    step_text rfl rfl
  have hopened : s₁.connections[0]? = some ⟨∅, none, 0, 0, false⟩ := rfl
  obtain ⟨hid, hstay⟩ :=
    held_onText (P := notePlatform) (C := noteCodec) (f := f₁) hopened
  rw [← hstep] at hid hstay
  rcases hheld with ⟨conn, hconn, hkey⟩ | ⟨m, hsigned, htarget⟩
  · have hheld := (congrArg (Option.map WsConnection.held) hconn).symm.trans (hstay 0)
    have hnone : conn.held = ∅ := Option.some.inj hheld
    rw [hnone] at hkey
    exact hkey
  · have hnode := (hsigned.symm.trans htarget).trans (congrArg some hid)
    exact absurd (Option.some.inj hnode) (by decide)

end ConquerD.Supernode
