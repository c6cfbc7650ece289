import ConquerD.Supernode.Verify.OwnSockets

/-!
# Supernode: finding a socket by its target

A socket is filed under the sender as spelled, and under the hash of the key there is
an alias to one of the spellings. A target in base64 finds a socket by its bare or its
canonical text, a target in hexadecimal by the alias. So a key that comes under an odd
spelling only, or under two of which the one with the alias goes first, has a socket
that some of its targets do not find.
-/

namespace ConquerD.Supernode

open ConquerD.Features Lib.Encoding Lib.Run Wire
open Std (ExtTreeMap)

variable {τ : Type} (P : Platform) (C : Codec τ)

/-! ## What is asked -/

/-- What the library promises of keys, and that base64 is strict: one text for one key. -/
structure StrictKeyTexts : Prop extends KeyTexts P where
  unique : ∀ a b key, P.decodeB64UrlNoPad a = some key → P.decodeB64UrlNoPad b = some key →
    key.length = 32 → a = b

/-- Every target that names a key with a socket is found, no target leads to a socket of
another key, and the count is that of the sockets. -/
structure TargetsResolve (s : WsServer) : Prop where
  found : ∀ (p : String) (key : Bytes) (target : String), p ∈ s.state.peerSockets →
    P.b64urlDecode p = some key → Names P target key → (s.state.socketForTarget target).isSome
  own : ∀ (target : String) (key : Bytes) (c : Nat), Names P target key →
    s.state.socketForTarget target = some c →
      ∃ conn p, s.connections[c]? = some conn ∧ conn.peerId = some p ∧
        P.b64urlDecode p = some key
  counted : s.state.connectedCount = s.state.peerSockets.size

/-- Bare or canonical. -/
def PlainSpelling (p : String) : Prop :=
  p = bare p ∨ p = normalizePublicId p

/-- A connection registers under a plain spelling, or there is a socket of its key
already; and the end of a connection leaves no socket of its key behind, or leaves a plain
one and takes no alias with it. -/
def KeepsTargets (s : WsServer) : WsEvent → Prop
  | .opened _ _ => True
  | .text c f => ∀ conn m, s.connections[c]? = some conn → conn.closed = false →
      conn.peerId = none → (checkFrame P C s.replayGuard conn f).1 = some m →
        PlainSpelling m.sender ∨ ∃ q, q ∈ s.state.peerSockets ∧ bare q = bare m.sender
  | .closed c => ∀ conn p, s.connections[c]? = some conn → conn.closed = false →
      conn.peerId = some p → s.state.peerSockets[p]? = some c →
        (∀ q, q ∈ s.state.peerSockets → bare q = bare p → q = p) ∨
        ((∃ q, q ∈ s.state.peerSockets ∧ q ≠ p ∧ bare q = bare p ∧ PlainSpelling q) ∧
          ∀ a : String, s.state.peerIdAliases[a]? ≠ some p)

/-! ## The table -/

namespace SignalingState

/-- Sockets are filed under keys, and an alias leads from the hash of a key to a socket
of that key. -/
structure Filed (st : SignalingState) : Prop where
  keyed : ∀ p, p ∈ st.peerSockets → ∃ key, P.b64urlDecode p = some key ∧ key.length = 32
  aliased : ∀ a p : String, st.peerIdAliases[a]? = some p → p ∈ st.peerSockets ∧
    ∃ key, P.b64urlDecode p = some key ∧ key.length = 32 ∧ a = P.derivePeerId key
  counted : st.connectedCount = st.peerSockets.size

/-- Each key with a socket has one under a plain spelling, and an alias. -/
def Resolved (st : SignalingState) : Prop :=
  ∀ p, p ∈ st.peerSockets → (∃ q, q ∈ st.peerSockets ∧ bare q = bare p ∧ PlainSpelling q) ∧
    ∀ key, P.b64urlDecode p = some key → P.derivePeerId key ∈ st.peerIdAliases

variable {P} {st : SignalingState}

theorem filed_new : Filed P .new where
  keyed p h := by simp [new] at h
  aliased a p h := by simp [new] at h
  counted := by simp [new]

theorem resolved_new : Resolved P .new := by
  intro p h
  simp [new] at h

/-! ### Spellings -/

theorem mem_identityKeyVariants {target key : String} :
    key ∈ identityKeyVariants target ↔
      key = target ∨ key = normalizePublicId target ∨ key = bare target := by
  unfold identityKeyVariants
  by_cases hcanon : normalizePublicId target = target
  · by_cases hbare : bare target = target
    · simp [hcanon, hbare]
    · simp [hcanon, hbare]
  · by_cases hbare : bare target = target
    · simp [hcanon, hbare, or_comm]
    · simp [hcanon, hbare]

theorem b64urlDecode_of_bare_eq {p q : String} (h : bare q = bare p) :
    P.b64urlDecode q = P.b64urlDecode p := by
  rw [Platform.b64urlDecode, Platform.b64urlDecode, h]

theorem bare_eq_of_key (hP : StrictKeyTexts P) {p q : String} {key : Bytes}
    (hp : P.b64urlDecode p = some key) (hq : P.b64urlDecode q = some key)
    (hlen : key.length = 32) : bare q = bare p :=
  hP.unique _ _ key hq hp hlen

theorem plain_mem_variants (hP : StrictKeyTexts P) {target q : String} {key : Bytes}
    (hkey : P.b64urlDecode target = some key) (hlen : key.length = 32)
    (hbare : bare q = bare target) (hplain : PlainSpelling q) :
    q ∈ identityKeyVariants target := by
  rw [mem_identityKeyVariants]
  rcases hplain with hq | hq
  · exact .inr (.inr (hq.trans hbare))
  · have hsize : (bare target).utf8ByteSize = 43 := hP.size _ _ hkey hlen
    have hcanon : normalizePublicId q = normalizePublicId target := by
      unfold normalizePublicId
      rw [hbare, if_pos hsize, if_pos hsize]
    exact .inr (.inl (hq.trans hcanon))

theorem plain_of_mem_variants_bare {p q : String} (h : q ∈ identityKeyVariants (bare p)) :
    bare q = bare p ∧ PlainSpelling q := by
  have hself : bare (bare p) = bare p ∧ PlainSpelling (bare p) :=
    ⟨bare_bare p, .inl (bare_bare p).symm⟩
  rcases mem_identityKeyVariants.mp h with hq | hq | hq
  · rw [hq]
    exact hself
  · rw [hq]
    exact ⟨(bare_normalizePublicId _).trans (bare_bare p), .inr (normalizePublicId_idem _).symm⟩
  · rw [hq.trans (bare_bare p)]
    exact hself

/-! ### What a target finds -/

theorem socketForTarget_text (h : Filed P st) (hP : StrictKeyTexts P) {target : String}
    {key : Bytes} (hkey : P.b64urlDecode target = some key) (hlen : key.length = 32) :
    st.socketForTarget target =
      (identityKeyVariants target).findSome? fun v => st.peerSockets[v]? := by
  unfold socketForTarget
  split
  · next c hc => rw [hc]
  · next hnone =>
    rw [hnone]
    cases halias : st.peerIdAliases[target]? with
    | none => rfl
    | some p =>
      obtain ⟨-, key', -, hlen', rfl⟩ := h.aliased target p halias
      exact absurd hkey (hP.derivePeerId_no_key hlen' hlen)

theorem socketForTarget_peerId (h : Filed P st) (hP : StrictKeyTexts P) {key : Bytes}
    (hlen : key.length = 32) :
    st.socketForTarget (P.derivePeerId key) =
      st.peerIdAliases[P.derivePeerId key]?.bind fun p => st.peerSockets[p]? := by
  have hnone : ((identityKeyVariants (P.derivePeerId key)).findSome? fun v =>
      st.peerSockets[v]?) = none := by
    refine List.findSome?_eq_none_iff.mpr fun v hv => ?_
    cases hsocket : st.peerSockets[v]? with
    | none => rfl
    | some c =>
      have hmem : v ∈ st.peerSockets :=
        ExtTreeMap.mem_iff_isSome_getElem?.mpr (by rw [hsocket]; rfl)
      obtain ⟨key', hkey', hlen'⟩ := h.keyed v hmem
      rw [b64urlDecode_eq_of_mem_variants hv] at hkey'
      exact absurd hkey' (hP.derivePeerId_no_key hlen hlen')
  unfold socketForTarget
  rw [hnone]

theorem found_iff_resolved (h : Filed P st) (hP : StrictKeyTexts P) :
    (∀ (p : String) (key : Bytes) (target : String), p ∈ st.peerSockets →
      P.b64urlDecode p = some key → Names P target key → (st.socketForTarget target).isSome) ↔
      Resolved P st := by
  constructor
  · intro hfound p hp
    obtain ⟨key, hkey, hlen⟩ := h.keyed p hp
    constructor
    · have hbare : P.b64urlDecode (bare p) = some key := by
        rw [b64urlDecode_of_bare_eq (bare_bare p)]
        exact hkey
      have hsome := hfound p key (bare p) hp hkey ⟨hlen, .inl hbare⟩
      rw [socketForTarget_text h hP hbare hlen, List.findSome?_isSome_iff] at hsome
      obtain ⟨q, hq, hsocket⟩ := hsome
      exact ⟨q, ExtTreeMap.mem_iff_isSome_getElem?.mpr hsocket, plain_of_mem_variants_bare hq⟩
    · intro key' hkey'
      obtain rfl := Option.some.inj (hkey.symm.trans hkey')
      have hsome := hfound p key _ hp hkey ⟨hlen, .inr rfl⟩
      rw [socketForTarget_peerId h hP hlen] at hsome
      rw [ExtTreeMap.mem_iff_isSome_getElem?]
      cases halias : st.peerIdAliases[P.derivePeerId key]? with
      | none =>
        rw [halias] at hsome
        cases hsome
      | some q => rfl
  · rintro hresolved p key target hp hkey ⟨hlen, hdecode | rfl⟩
    · obtain ⟨⟨q, hq, hbare, hplain⟩, -⟩ := hresolved p hp
      rw [socketForTarget_text h hP hdecode hlen, List.findSome?_isSome_iff]
      refine ⟨q, plain_mem_variants hP hdecode hlen ?_ hplain,
        ExtTreeMap.mem_iff_isSome_getElem?.mp hq⟩
      exact hbare.trans (bare_eq_of_key hP hdecode hkey hlen)
    · have halias := (hresolved p hp).2 key hkey
      rw [socketForTarget_peerId h hP hlen]
      obtain ⟨q, hq⟩ := Option.isSome_iff_exists.mp (ExtTreeMap.mem_iff_isSome_getElem?.mp halias)
      rw [hq, Option.bind_some]
      exact ExtTreeMap.mem_iff_isSome_getElem?.mp (h.aliased _ q hq).1

theorem key_of_socketForTarget (h : Filed P st) (hP : StrictKeyTexts P) {target : String}
    {key : Bytes} {c : Nat} (hnames : Names P target key)
    (hfound : st.socketForTarget target = some c) :
    ∃ p, st.peerSockets[p]? = some c ∧ P.b64urlDecode p = some key := by
  obtain ⟨hlen, hdecode | rfl⟩ := hnames
  · rw [socketForTarget_text h hP hdecode hlen] at hfound
    obtain ⟨v, hv, hsocket⟩ := List.exists_of_findSome?_eq_some hfound
    exact ⟨v, hsocket, (b64urlDecode_eq_of_mem_variants hv).trans hdecode⟩
  · rw [socketForTarget_peerId h hP hlen] at hfound
    obtain ⟨p, halias, hsocket⟩ := Option.bind_eq_some_iff.mp hfound
    obtain ⟨-, key', hkey', hlen', heq⟩ := h.aliased _ p halias
    obtain rfl := hP.eq_of_derivePeerId_eq hlen hlen' heq
    exact ⟨p, hsocket, hkey'⟩

/-! ### Registration -/

section Register

variable {sender : String} {key : Bytes} (hkey : P.b64urlDecode sender = some key)
  (hlen : key.length = 32)
include hkey hlen

theorem registerSocket_eq (st : SignalingState) (c : Nat) :
    st.registerSocket P sender c =
      ⟨st.peerSockets.insert sender c, st.peerIdAliases.insert (P.derivePeerId key) sender,
        if st.peerSockets[sender]?.isNone then st.connectedCount + 1 else st.connectedCount⟩ := by
  have halias : peerIdAliasFor P sender = some (P.derivePeerId key) := by
    rw [peerIdAliasFor, hkey]
    exact if_neg (not_not_intro hlen)
  unfold registerSocket
  rw [halias]

theorem Filed.registerSocket (h : Filed P st) (c : Nat) :
    Filed P (st.registerSocket P sender c) := by
  rw [registerSocket_eq hkey hlen]
  refine ⟨?_, ?_, ?_⟩
  · intro p hp
    rcases ExtTreeMap.mem_insert.mp hp with heq | hp
    · obtain rfl := Std.compare_eq_iff_eq.mp heq
      exact ⟨key, hkey, hlen⟩
    · exact h.keyed p hp
  · intro a p hp
    simp only [ExtTreeMap.getElem?_insert, Std.compare_eq_iff_eq] at hp
    split at hp
    · next heq =>
      obtain rfl := Option.some.inj hp
      exact ⟨ExtTreeMap.mem_insert_self, key, hkey, hlen, heq.symm⟩
    · obtain ⟨hmem, hkeyed⟩ := h.aliased a p hp
      exact ⟨ExtTreeMap.mem_insert.mpr (.inr hmem), hkeyed⟩
  · simp only [ExtTreeMap.size_insert, h.counted]
    by_cases hmem : sender ∈ st.peerSockets
    · have hsome := ExtTreeMap.mem_iff_isSome_getElem?.mp hmem
      rw [if_pos (ExtTreeMap.mem_iff_contains.mp hmem), if_neg (by simpa using hsome)]
    · have hnone : st.peerSockets[sender]? = none := ExtTreeMap.getElem?_eq_none hmem
      rw [if_neg fun hc => hmem (ExtTreeMap.mem_iff_contains.mpr hc), hnone]
      rfl

theorem resolved_registerSocket_iff (hresolved : Resolved P st) (c : Nat) :
    Resolved P (st.registerSocket P sender c) ↔
      PlainSpelling sender ∨ ∃ q, q ∈ st.peerSockets ∧ bare q = bare sender := by
  rw [registerSocket_eq hkey hlen]
  constructor
  · intro h
    obtain ⟨⟨q, hq, hbare, hplain⟩, -⟩ := h sender ExtTreeMap.mem_insert_self
    rcases ExtTreeMap.mem_insert.mp hq with heq | hq
    · obtain rfl := Std.compare_eq_iff_eq.mp heq
      exact .inl hplain
    · exact .inr ⟨q, hq, hbare⟩
  · intro h
    -- the key that registers has a plain spelling then
    have hself : ∃ q, q ∈ st.peerSockets.insert sender c ∧ bare q = bare sender ∧
        PlainSpelling q := by
      rcases h with hplain | ⟨q, hq, hbare⟩
      · exact ⟨sender, ExtTreeMap.mem_insert_self, rfl, hplain⟩
      · obtain ⟨⟨q', hq', hbare', hplain⟩, -⟩ := hresolved q hq
        exact ⟨q', ExtTreeMap.mem_insert.mpr (.inr hq'), hbare'.trans hbare, hplain⟩
    intro p hp
    rcases ExtTreeMap.mem_insert.mp hp with heq | hp
    · obtain rfl := Std.compare_eq_iff_eq.mp heq
      refine ⟨hself, fun key' hkey' => ?_⟩
      obtain rfl := Option.some.inj (hkey.symm.trans hkey')
      exact ExtTreeMap.mem_insert_self
    · obtain ⟨⟨q, hq, hbare, hplain⟩, halias⟩ := hresolved p hp
      refine ⟨⟨q, ExtTreeMap.mem_insert.mpr (.inr hq), hbare, hplain⟩, fun key' hkey' => ?_⟩
      exact ExtTreeMap.mem_insert.mpr (.inr (halias key' hkey'))

end Register

/-! ### Removal -/

section Remove

variable {p : String}

/-- The table without a socket, as the end of a connection leaves it. -/
def without (st : SignalingState) (p : String) : SignalingState :=
  { st.removePeerSocket p with connectedCount := st.connectedCount - 1 }

theorem mem_without {q : String} :
    q ∈ (st.without p).peerSockets ↔ q ≠ p ∧ q ∈ st.peerSockets := by
  simp only [without, removePeerSocket, ExtTreeMap.mem_erase, ne_eq, Std.compare_eq_iff_eq]
  rw [eq_comm]

theorem alias_without {a q : String} :
    (st.without p).peerIdAliases[a]? = some q ↔ st.peerIdAliases[a]? = some q ∧ q ≠ p := by
  simp only [without, removePeerSocket, ExtTreeMap.getElem?_filter', Option.filter_eq_some_iff,
    bne_iff_ne]

theorem Filed.without (h : Filed P st) (hp : p ∈ st.peerSockets) : Filed P (st.without p) := by
  refine ⟨?_, ?_, ?_⟩
  · intro q hq
    exact h.keyed q (mem_without.mp hq).2
  · intro a q hq
    obtain ⟨halias, hne⟩ := alias_without.mp hq
    obtain ⟨hmem, hkeyed⟩ := h.aliased a q halias
    exact ⟨mem_without.mpr ⟨hne, hmem⟩, hkeyed⟩
  · simp only [SignalingState.without, removePeerSocket, ExtTreeMap.size_erase, h.counted,
      if_pos (ExtTreeMap.mem_iff_contains.mp hp)]

theorem resolved_without_iff (h : Filed P st) (hP : StrictKeyTexts P)
    (hresolved : Resolved P st) (hp : p ∈ st.peerSockets) :
    Resolved P (st.without p) ↔
      (∀ q, q ∈ st.peerSockets → bare q = bare p → q = p) ∨
      ((∃ q, q ∈ st.peerSockets ∧ q ≠ p ∧ bare q = bare p ∧ PlainSpelling q) ∧
        ∀ a : String, st.peerIdAliases[a]? ≠ some p) := by
  obtain ⟨key, hkey, hlen⟩ := h.keyed p hp
  constructor
  · intro hafter
    by_cases halone : ∀ q, q ∈ st.peerSockets → bare q = bare p → q = p
    · exact .inl halone
    simp only [not_forall] at halone
    obtain ⟨q, hq, hbare, hne⟩ := halone
    obtain ⟨⟨q', hq', hbare', hplain⟩, halias⟩ := hafter q (mem_without.mpr ⟨hne, hq⟩)
    obtain ⟨hne', hq'⟩ := mem_without.mp hq'
    refine .inr ⟨⟨q', hq', hne', hbare'.trans hbare, hplain⟩, fun a ha => ?_⟩
    -- the alias that is left after the removal is the one that led to the spelling that went
    obtain ⟨-, key', hkey', -, rfl⟩ := h.aliased a p ha
    obtain rfl := Option.some.inj (hkey.symm.trans hkey')
    have hleft := halias key ((b64urlDecode_of_bare_eq hbare).trans hkey)
    obtain ⟨p', hp'⟩ := Option.isSome_iff_exists.mp (ExtTreeMap.mem_iff_isSome_getElem?.mp hleft)
    obtain ⟨halias', hne''⟩ := alias_without.mp hp'
    exact hne'' (Option.some.inj (halias'.symm.trans ha))
  · intro hcond p' hp'
    obtain ⟨hne, hmem⟩ := mem_without.mp hp'
    obtain ⟨⟨q, hq, hbare, hplain⟩, halias⟩ := hresolved p' hmem
    have hkeep : ∀ key', P.b64urlDecode p' = some key' →
        st.peerIdAliases[P.derivePeerId key']? ≠ some p →
        P.derivePeerId key' ∈ (st.without p).peerIdAliases := by
      intro key' hkey' hother
      obtain ⟨r, hr⟩ :=
        Option.isSome_iff_exists.mp (ExtTreeMap.mem_iff_isSome_getElem?.mp (halias key' hkey'))
      have hrp : r ≠ p := fun heq => hother (heq ▸ hr)
      rw [ExtTreeMap.mem_iff_isSome_getElem?, alias_without.mpr ⟨hr, hrp⟩]
      rfl
    by_cases hsame : bare p' = bare p
    · rcases hcond with halone | ⟨⟨r, hr, hrp, hrbare, hrplain⟩, hnone⟩
      · exact absurd (halone p' hmem hsame) hne
      · refine ⟨⟨r, mem_without.mpr ⟨hrp, hr⟩, hrbare.trans hsame.symm, hrplain⟩, ?_⟩
        exact fun key' hkey' => hkeep key' hkey' (hnone _)
    · refine ⟨⟨q, mem_without.mpr ⟨?_, hq⟩, hbare, hplain⟩, fun key' hkey' => ?_⟩
      · rintro rfl
        exact hsame hbare.symm
      · refine hkeep key' hkey' fun ha => ?_
        obtain ⟨key'', hkey'', hlen''⟩ := h.keyed p' hmem
        obtain rfl := Option.some.inj (hkey''.symm.trans hkey')
        obtain ⟨-, key₀, hkey₀, -, heq⟩ := h.aliased _ p ha
        obtain rfl := Option.some.inj (hkey.symm.trans hkey₀)
        obtain rfl := hP.eq_of_derivePeerId_eq hlen'' hlen heq
        exact hsame (bare_eq_of_key hP hkey hkey'' hlen)

end Remove

end SignalingState

/-! ## Steps -/

section Steps

variable {P C} {s : WsServer}

/-- The registrations of the connections so far. -/
def WsServer.peerIds (s : WsServer) : List (Option String) :=
  s.connections.map WsConnection.peerId

theorem set_getElem?_self {α : Type} {xs : List α} {i : Nat} {x : α} (h : xs[i]? = some x) :
    xs.set i x = xs := by
  obtain ⟨hlt, heq⟩ := List.getElem?_eq_some_iff.mp h
  rw [← heq, List.set_getElem_self]

/-- A connection that keeps its registration leaves the registrations alone. -/
theorem peerIds_set {c : Nat} {conn conn' : WsConnection} (hconn : s.connections[c]? = some conn)
    (hsame : conn'.peerId = conn.peerId) :
    (s.connections.set c conn').map WsConnection.peerId = s.peerIds := by
  rw [List.map_set, hsame]
  refine set_getElem?_self ?_
  rw [List.getElem?_map, hconn]
  rfl

theorem relay_state (s : WsServer) (m : Envelope τ) (f : WsFrame) :
    (s.relay m f).state = s.state ∧ (s.relay m f).connections = s.connections := by
  unfold WsServer.relay
  split
  · exact ⟨rfl, rfl⟩
  · split
    · exact ⟨rfl, rfl⟩
    · split
      · exact ⟨rfl, rfl⟩
      · split
        · exact ⟨rfl, rfl⟩
        · exact ⟨rfl, rfl⟩

/-- What a step does to the sockets: nothing, and then it keeps the targets; a
registration; or a removal. -/
inductive SocketStep (P : Platform) (C : Codec τ) (s s' : WsServer) : WsEvent → Prop
  | quiet {e : WsEvent} (state : s'.state = s.state)
      (peerIds : ∃ more, s'.peerIds = s.peerIds ++ more) (keeps : KeepsTargets P C s e) :
      SocketStep P C s s' e
  | registered {c : Nat} {f : WsFrame} {conn : WsConnection} {m : Envelope τ}
      (connection : s.connections[c]? = some conn) (opened : conn.closed = false)
      (fresh : conn.peerId = none)
      (passes : (checkFrame P C s.replayGuard conn f).1 = some m)
      (state : s'.state = s.state.registerSocket P m.sender c)
      (peerIds : s'.peerIds = s.peerIds.set c (some m.sender)) : SocketStep P C s s' (.text c f)
  | removed {c : Nat} {conn : WsConnection} {p : String}
      (connection : s.connections[c]? = some conn) (opened : conn.closed = false)
      (name : conn.peerId = some p) (socket : s.state.peerSockets[p]? = some c)
      (state : s'.state = s.state.without p) (peerIds : s'.peerIds = s.peerIds) :
      SocketStep P C s s' (.closed c)

theorem socketStep_onText {c : Nat} {conn : WsConnection} (f : WsFrame)
    (hconn : s.connections[c]? = some conn) (hopen : conn.closed = false) :
    SocketStep P C s (s.onText P C c conn f) (.text c f) := by
  obtain ⟨-, hpeer⟩ := held_checkFrame (P := P) (C := C) s.replayGuard conn f
  have hquiet : (conn.peerId = none → (checkFrame P C s.replayGuard conn f).1 = none) →
      KeepsTargets P C s (.text c f) := by
    intro hnone conn' m hconn' _ hfresh hm
    obtain rfl := Option.some.inj (hconn.symm.trans hconn')
    rw [hnone hfresh] at hm
    cases hm
  unfold WsServer.onText
  dsimp only
  cases hm : (checkFrame P C s.replayGuard conn f).1 with
  | none => exact .quiet rfl ⟨[], by simp [WsServer.peerIds, peerIds_set hconn hpeer]⟩ (hquiet fun _ => hm)
  | some m =>
    obtain ⟨hstate, hconnections⟩ := relay_state (WsServer.register P
      { s with replayGuard := (checkFrame P C s.replayGuard conn f).2.1 } c
      (checkFrame P C s.replayGuard conn f).2.2 m.sender) m f
    unfold WsServer.register at hstate hconnections ⊢
    cases hid : conn.peerId with
    | none =>
      have hnone : (checkFrame P C s.replayGuard conn f).2.2.peerId.isNone = true := by
        rw [hpeer, hid]
        rfl
      simp only [hnone, if_true] at hstate hconnections ⊢
      refine .registered hconn hopen hid hm hstate ?_
      rw [WsServer.peerIds, hconnections, List.map_set]
      rfl
    | some p =>
      have hsome : ¬ (checkFrame P C s.replayGuard conn f).2.2.peerId.isNone = true := by
        rw [hpeer, hid]
        exact Bool.false_ne_true
      simp only [if_neg hsome] at hstate hconnections ⊢
      refine .quiet hstate ⟨[], ?_⟩ (hquiet fun h => absurd (hid.symm.trans h) nofun)
      rw [WsServer.peerIds, hconnections, List.append_nil]
      exact peerIds_set hconn hpeer

theorem socketStep_onClosed {c : Nat} {conn : WsConnection}
    (hconn : s.connections[c]? = some conn) (hopen : conn.closed = false) :
    SocketStep P C s (s.onClosed c conn) (.closed c) := by
  have hids : (s.connections.set c { conn with closed := true }).map WsConnection.peerId =
      s.peerIds := peerIds_set hconn rfl
  unfold WsServer.onClosed
  dsimp only
  cases hid : conn.peerId with
  | none =>
    rw [hid] at hids
    refine .quiet rfl ⟨[], by rw [List.append_nil]; exact hids⟩ ?_
    intro conn' p hconn' _ hp _
    obtain rfl := Option.some.inj (hconn.symm.trans hconn')
    rw [hid] at hp
    cases hp
  | some p =>
    rw [hid] at hids
    by_cases hours : s.state.peerSockets[p]? = some c
    · simp only [if_pos hours]
      exact .removed hconn hopen hid hours rfl hids
    · simp only [if_neg hours]
      refine .quiet rfl ⟨[], by rw [List.append_nil]; exact hids⟩ ?_
      intro conn' p' hconn' _ hp hsocket
      obtain rfl := Option.some.inj (hconn.symm.trans hconn')
      obtain rfl := Option.some.inj (hid.symm.trans hp)
      exact absurd hsocket hours

theorem socketStep_step (s : WsServer) (e : WsEvent) : SocketStep P C s (s.step P C e) e := by
  cases e with
  | opened held instant =>
    exact .quiet rfl ⟨[none], by simp [WsServer.peerIds, WsServer.step]⟩ trivial
  | text c f =>
    simp only [WsServer.step]
    cases hconn : s.connections[c]? with
    | none =>
      refine .quiet rfl ⟨[], (List.append_nil _).symm⟩ fun conn m hconn' => ?_
      rw [hconn] at hconn'
      cases hconn'
    | some conn =>
      by_cases hclosed : conn.closed = true
      · simp only [if_pos hclosed]
        refine .quiet rfl ⟨[], (List.append_nil _).symm⟩ fun conn' m hconn' hopen => ?_
        obtain rfl := Option.some.inj (hconn.symm.trans hconn')
        rw [hclosed] at hopen
        cases hopen
      · simp only [if_neg hclosed]
        exact socketStep_onText f hconn (Bool.eq_false_iff.mpr hclosed)
  | closed c =>
    simp only [WsServer.step]
    cases hconn : s.connections[c]? with
    | none =>
      refine .quiet rfl ⟨[], (List.append_nil _).symm⟩ fun conn p hconn' => ?_
      rw [hconn] at hconn'
      cases hconn'
    | some conn =>
      by_cases hclosed : conn.closed = true
      · simp only [if_pos hclosed]
        refine .quiet rfl ⟨[], (List.append_nil _).symm⟩ fun conn' p hconn' hopen => ?_
        obtain rfl := Option.some.inj (hconn.symm.trans hconn')
        rw [hclosed] at hopen
        cases hopen
      · simp only [if_neg hclosed]
        exact socketStep_onClosed hconn (Bool.eq_false_iff.mpr hclosed)

/-! ## Runs -/

/-- Sockets are filed under keys, and each leads to a connection that is registered so. -/
structure ChurnInv (P : Platform) (s : WsServer) : Prop where
  filed : s.state.Filed P
  named : ∀ (p : String) (c : Nat), s.state.peerSockets[p]? = some c → s.peerIds[c]? = some (some p)

theorem churnInv_start (ourId : String) : ChurnInv P (.start ourId) where
  filed := SignalingState.filed_new
  named p c h := by simp [WsServer.start, SignalingState.new] at h

theorem ChurnInv.step (h : ChurnInv P s) (e : WsEvent) : ChurnInv P (s.step P C e) := by
  cases socketStep_step (P := P) (C := C) s e with
  | quiet hstate hids _ =>
    obtain ⟨more, hids⟩ := hids
    refine ⟨hstate ▸ h.filed, fun p c hp => ?_⟩
    rw [hstate] at hp
    have hid := h.named p c hp
    rw [hids, List.getElem?_append_left (List.getElem?_eq_some_iff.mp hid).1]
    exact hid
  | @registered c f conn m hconn hopen hfresh hm hstate hids =>
    obtain ⟨key, hkey, hlen⟩ := key_of_verify (verify_of_checkFrame hm)
    have hid : s.peerIds[c]? = some none := by
      rw [WsServer.peerIds, List.getElem?_map, hconn]
      exact congrArg some hfresh
    refine ⟨hstate ▸ h.filed.registerSocket hkey hlen c, fun p d hp => ?_⟩
    rw [hstate] at hp
    simp only [SignalingState.registerSocket, ExtTreeMap.getElem?_insert,
      Std.compare_eq_iff_eq] at hp
    rw [hids]
    split at hp
    · next heq =>
      obtain rfl := Option.some.inj hp
      rw [heq]
      exact List.getElem?_set_self (List.getElem?_eq_some_iff.mp hid).1
    · -- nothing led to the connection before
      have hother := h.named p d hp
      have hne : c ≠ d := by
        rintro rfl
        rw [hid] at hother
        cases hother
      rw [List.getElem?_set_ne hne]
      exact hother
  | @removed c conn p hconn hopen hname hsocket hstate hids =>
    have hmem : p ∈ s.state.peerSockets :=
      ExtTreeMap.mem_iff_isSome_getElem?.mpr (by rw [hsocket]; rfl)
    refine ⟨hstate ▸ h.filed.without hmem, fun q d hq => ?_⟩
    rw [hids]
    refine h.named q d ?_
    rw [hstate] at hq
    simp only [SignalingState.without, SignalingState.removePeerSocket,
      ExtTreeMap.getElem?_erase] at hq
    split at hq
    · cases hq
    · exact hq

theorem ChurnInv.targetsResolve_iff (h : ChurnInv P s) (hP : StrictKeyTexts P) :
    TargetsResolve P s ↔ s.state.Resolved P := by
  rw [← SignalingState.found_iff_resolved h.filed hP]
  refine ⟨fun ht => ht.found, fun hfound => ⟨hfound, ?_, h.filed.counted⟩⟩
  intro target key c hnames hsocket
  obtain ⟨p, hp, hkey⟩ := SignalingState.key_of_socketForTarget h.filed hP hnames hsocket
  have hid := h.named p c hp
  rw [WsServer.peerIds, List.getElem?_map, Option.map_eq_some_iff] at hid
  obtain ⟨conn, hconn, hname⟩ := hid
  exact ⟨conn, p, hconn, hname, hkey⟩

theorem ChurnInv.step_iff (h : ChurnInv P s) (hP : StrictKeyTexts P)
    (hresolve : TargetsResolve P s) (e : WsEvent) :
    TargetsResolve P (s.step P C e) ↔ KeepsTargets P C s e := by
  have hresolved := (h.targetsResolve_iff hP).mp hresolve
  rw [(h.step (C := C) e).targetsResolve_iff hP]
  cases socketStep_step (P := P) (C := C) s e with
  | quiet hstate _ hkeeps =>
    rw [hstate]
    exact ⟨fun _ => hkeeps, fun _ => hresolved⟩
  | @registered c f conn m hconn hopen hfresh hm hstate _ =>
    obtain ⟨key, hkey, hlen⟩ := key_of_verify (verify_of_checkFrame hm)
    rw [hstate, SignalingState.resolved_registerSocket_iff hkey hlen hresolved c]
    constructor
    · intro hcond conn' m' hconn' _ _ hm'
      obtain rfl := Option.some.inj (hconn.symm.trans hconn')
      obtain rfl := Option.some.inj (hm.symm.trans hm')
      exact hcond
    · exact fun hcond => hcond conn m hconn hopen hfresh hm
  | @removed c conn p hconn hopen hname hsocket hstate _ =>
    have hmem : p ∈ s.state.peerSockets :=
      ExtTreeMap.mem_iff_isSome_getElem?.mpr (by rw [hsocket]; rfl)
    rw [hstate, SignalingState.resolved_without_iff h.filed hP hresolved hmem]
    constructor
    · intro hcond conn' p' hconn' _ hname' _
      obtain rfl := Option.some.inj (hconn.symm.trans hconn')
      obtain rfl := Option.some.inj (hname.symm.trans hname')
      exact hcond
    · exact fun hcond => hcond conn p hconn hopen hname hsocket

end Steps

/-- Through any churn, every target of a key with a socket is found, and none leads
astray, exactly as long as every registration and every removal keeps the targets. -/
theorem targets_resolve_iff (hP : StrictKeyTexts P) (ourId : String) (es : List WsEvent) :
    Along (WsServer.step P C) (fun s e => TargetsResolve P (s.step P C e)) (.start ourId) es ↔
      Along (WsServer.step P C) (KeepsTargets P C) (.start ourId) es := by
  have hstart : TargetsResolve P (.start ourId) :=
    ((churnInv_start ourId).targetsResolve_iff hP).mpr SignalingState.resolved_new
  exact along_after_iff (ChurnInv P) (TargetsResolve P) (churnInv_start ourId) hstart
    (fun _ e h => h.step e) fun _ e h hresolve => h.step_iff hP hresolve e

/-! ## One key under two spellings -/

def helloText (sender : String) : String :=
  "\x7b\"type\":\"ping\",\"sender\":\"" ++ sender ++ "\",\"timestamp\":0,\"signature\":\"" ++
    twosSignature ++ "\"\x7d"

def helloJson (sender : String) : Json :=
  .obj [("type", .str "ping"), ("sender", .str sender), ("timestamp", .int 0),
    ("signature", .str twosSignature)]

/-- The canonical spelling. -/
def onesCanon : String :=
  onesId.push '='

/-- A platform that reads the hello of either spelling. -/
def helloPlatform : Platform :=
  { Platform.oneKey with
    jsonFromStr := fun s =>
      if s = helloText onesId then some (helloJson onesId)
      else if s = helloText onesCanon then some (helloJson onesCanon) else none }

theorem helloPlatform_strictKeyTexts : StrictKeyTexts helloPlatform where
  size := notePlatform_keyTexts.size
  digest := notePlatform_keyTexts.digest
  collisionFree := notePlatform_keyTexts.collisionFree
  unique a b key ha hb hlen := by
    have honly : ∀ s, helloPlatform.decodeB64UrlNoPad s = some key → s = onesId := by
      intro s hs
      change (if s = onesId then some (List.replicate 32 1)
        else if s = twosSignature then some (List.replicate 64 2) else none) = some key at hs
      split at hs
      · next heq => exact heq
      · split at hs
        · rw [← Option.some.inj hs, List.length_replicate] at hlen
          cases hlen
        · cases hs
    rw [honly a ha, honly b hb]

/-- The key comes bare on one connection and in the canonical spelling on another. -/
def twoSpellings : List WsEvent :=
  [.opened {onesKey} 0, .opened {onesKey} 0, .text 0 ⟨helloText onesId, 0, 0, true⟩,
    .text 1 ⟨helloText onesCanon, 0, 0, true⟩]

theorem sender_of_hello {sender : String} {s : WsServer} {conn : WsConnection} {m : Envelope Unit}
    (hread : (Signaling.fromJson helloPlatform noteCodec (helloText sender)).map
      Envelope.sender = some sender)
    (hm : (checkFrame helloPlatform noteCodec s.replayGuard conn
      ⟨helloText sender, 0, 0, true⟩).1 = some m) : m.sender = sender := by
  obtain ⟨parsed, hparsed, hsender⟩ := Option.map_eq_some_iff.mp hread
  rw [← hsender]
  unfold checkFrame at hm
  split at hm
  · cases hm
  · rw [hparsed] at hm
    dsimp only at hm
    split at hm
    · cases hm
    · split at hm
      · cases hm
      · split at hm
        · rw [Option.some.inj hm]
        · split at hm
          · cases hm
          · dsimp only at hm
            split at hm
            · rw [Option.some.inj hm]
            · cases hm

/-- The bare spelling goes first, and the key is found by every target all along. -/
theorem targets_resolve_when_the_first_goes_first :
    Along (WsServer.step helloPlatform noteCodec)
      (fun s e => TargetsResolve helloPlatform (s.step helloPlatform noteCodec e))
      (.start "node") (twoSpellings ++ [.closed 0]) := by
  refine (targets_resolve_iff helloPlatform noteCodec helloPlatform_strictKeyTexts "node" _).mpr ?_
  refine along_append.mpr ⟨⟨trivial, trivial, ?_, ?_, trivial⟩, ?_, trivial⟩
  · intro conn m _ _ _ hm
    rw [sender_of_hello (by decide +kernel) hm]
    exact .inl (.inl (by decide))
  · intro conn m _ _ _ hm
    rw [sender_of_hello (by decide +kernel) hm]
    exact .inl (.inr (by decide))
  · intro conn p hconn _ hname _
    have hrun : (run (WsServer.step helloPlatform noteCodec) (.start "node")
          twoSpellings).connections[0]?.bind WsConnection.peerId = some onesId ∧
        (run (WsServer.step helloPlatform noteCodec) (.start "node")
          twoSpellings).state.peerSockets.contains onesCanon = true ∧
        ∀ e ∈ (run (WsServer.step helloPlatform noteCodec) (.start "node")
          twoSpellings).state.peerIdAliases.toList, e.2 ≠ onesId := by
      decide +kernel
    obtain ⟨hid, hcanon, hall⟩ := hrun
    rw [hconn, Option.bind_some, hname] at hid
    obtain rfl := Option.some.inj hid
    refine .inr ⟨⟨onesCanon, ?_, by decide, by decide, .inr (by decide)⟩, fun a ha => ?_⟩
    · exact ExtTreeMap.mem_iff_contains.mpr hcanon
    · exact hall _ (ExtTreeMap.mem_toList_iff_getElem?_eq_some.mpr ha) rfl

/-- The canonical spelling goes first and takes the alias with it: the other socket is
there and the peer id does not find it. -/
theorem peer_id_finds_nothing_when_the_second_goes_first :
    ¬ Along (WsServer.step helloPlatform noteCodec)
      (fun s e => TargetsResolve helloPlatform (s.step helloPlatform noteCodec e))
      (.start "node") (twoSpellings ++ [.closed 1]) := by
  rintro ⟨-, -, -, -, hresolve, -⟩
  have hfound := hresolve.found onesId onesKey (helloPlatform.derivePeerId onesKey)
    (ExtTreeMap.mem_iff_contains.mpr (by decide +kernel)) (by decide +kernel)
    ⟨by decide, .inr rfl⟩
  revert hfound
  decide +kernel

end ConquerD.Supernode
