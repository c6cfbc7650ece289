import ConquerD.Client.Verify.RoomEffect

/-!
# Who left is locked out

The keyer of a room mints a new key when the union of the snapshots it holds
loses a member. So the key in use was never sealed to anybody outside the union,
and was not in use while such a peer was a member. Whether the union still holds
a peer that no connected supernode lists is another matter: snapshots stay when
their supernode is lost.
-/

namespace ConquerD.Client

open Std (ExtTreeMap ExtTreeSet)
open Lib.Rosters Lib.Run Wire ConnectionManager

/-! ## Events -/

/-- The random key an event may mint. -/
def RoomEvent.draw : RoomEvent → Option EpochKey
  | .inbound env _ => some env.randomKey
  | _ => none

/-- The event brings no key minted by somebody else. -/
def RoomEvent.BringsNoKey : RoomEvent → Prop
  | .inbound env outer => ∀ msg, dispatched env outer = some msg → msg.msgType ≠ .sfuGroupKey
  | _ => True

namespace Sessions

variable {P : Platform} {s : Sessions} {e : RoomEvent}

/-- Nobody is listed in a snapshot of the supernode. -/
def ListsNobody (s : Sessions) (supernodeId : String) : Prop :=
  ∀ roomId, members s.manager.roomGroupMembers (roomScopeKey supernodeId roomId) = ∅

/-- Snapshots come from connected supernodes, of rooms without a colon in their
id, and a supernode whose snapshots list somebody stays connected. -/
def KeepsSnapshotsLive (s : Sessions) : RoomEvent → Prop
  | .inbound env outer => ∀ msg, dispatched env outer = some msg → tellsMembers msg = true →
    msg.sender.text ∈ s.connected ∧ ':' ∉ (roomOf msg).toList
  | .connectSupernode supernodeId => s.ListsNobody supernodeId
  | .removeSupernode supernodeId => s.ListsNobody supernodeId
  | .wsDisconnected _ supernodeId _ => s.ListsNobody supernodeId
  | _ => True

/-- Every snapshot is filed under a supernode, which is connected if the
snapshot lists anybody, and a room without a colon. -/
def SnapshotsLive (s : Sessions) : Prop :=
  ∀ (key : String) (set : ExtTreeSet String), s.manager.roomGroupMembers[key]? = some set →
    ∃ (sn : PublicId) (r : String), key = roomScopeKey sn.text r ∧ ':' ∉ r.toList ∧
      ∀ m ∈ set, sn.text ∈ s.connected

theorem SnapshotsLive.filed (h : s.SnapshotsLive) : Filed s.manager.roomGroupMembers := by
  intro key set hset
  obtain ⟨sn, r, hkey, hr, -⟩ := h key set hset
  exact ⟨sn, r, hkey, hr⟩

theorem SnapshotsLive.mem_union (h : s.SnapshotsLive) {p roomId : String}
    (hp : p ∈ s.manager.union roomId) :
    ∃ sn ∈ s.connected, p ∈ members s.manager.roomGroupMembers (roomScopeKey sn roomId) := by
  obtain ⟨key, set, hset, hends, hmem⟩ := mem_unionMembersForRoom.mp hp
  obtain ⟨sn, r, rfl, hr, hlive⟩ := h key set hset
  rw [eq_of_endsWithRoom hr hends]
  refine ⟨sn.text, hlive p hmem, ?_⟩
  rw [members, hset]
  exact hmem

/-! ## Snapshots of connected supernodes -/

theorem SnapshotsLive.mono {s' : Sessions} (h : s.SnapshotsLive)
    (hsub : ∀ (key : String) (set : ExtTreeSet String),
      s'.manager.roomGroupMembers[key]? = some set → s.manager.roomGroupMembers[key]? = some set)
    (hconn : ∀ sn ∈ s.connected, sn ∈ s'.connected) : s'.SnapshotsLive := by
  intro key set hset
  obtain ⟨sn, r, hkey, hr, hlive⟩ := h key set (hsub key set hset)
  exact ⟨sn, r, hkey, hr, fun m hm => hconn _ (hlive m hm)⟩

theorem SnapshotsLive.erase {c : ConnectionManager} {supernodeId : String} (h : s.SnapshotsLive)
    (hmembers : c.roomGroupMembers = s.manager.roomGroupMembers)
    (hnobody : s.ListsNobody supernodeId) :
    SnapshotsLive ⟨c, s.connected.erase supernodeId⟩ := by
  intro key set hset
  rw [hmembers] at hset
  obtain ⟨sn, r, rfl, hr, hlive⟩ := h key set hset
  refine ⟨sn, r, rfl, hr, fun m hm => ?_⟩
  rw [ExtTreeSet.mem_erase]
  refine ⟨fun heq => ?_, hlive m hm⟩
  have hempty := hnobody r
  rw [Std.compare_eq_iff_eq.mp heq, members, hset, Option.getD_some] at hempty
  rw [hempty] at hm
  exact ExtTreeSet.not_mem_empty hm

theorem SnapshotsLive.handle (h : s.SnapshotsLive) (hkeeps : s.KeepsSnapshotsLive e) :
    (s.handle P e).1.SnapshotsLive := by
  cases e with
  | inbound env outer =>
    by_cases hnothing : TellsNothing (.inbound env outer)
    · exact h.mono (@handle_within P s.manager _ hnothing).snapshots fun _ hsn => hsn
    · simp only [TellsNothing, not_forall, Bool.not_eq_false] at hnothing
      obtain ⟨msg, hmsg, htells⟩ := hnothing
      obtain ⟨hconn, hr⟩ := hkeeps msg hmsg htells
      obtain ⟨c', hmembers, hkeying⟩ := @dispatch_tells P env s.manager msg htells
      have hafter : (s.handle P (.inbound env outer)).1.manager.roomGroupMembers =
          c'.roomGroupMembers := by
        rw [← hkeying.roomGroupMembers]
        simp [Sessions.handle, manage, ConnectionManager.handle, handleInbound, hmsg]
      intro key set hset
      rw [hafter, hmembers, ExtTreeMap.getElem?_insert] at hset
      split at hset
      · rename_i heq
        exact ⟨msg.sender, roomOf msg, (Std.compare_eq_iff_eq.mp heq).symm, hr, fun _ _ => hconn⟩
      · exact h key set hset
  | retryPendingGroupKeys env =>
    exact h.mono (@handle_within P s.manager (.retryPendingGroupKeys env) trivial).snapshots
      fun _ hsn => hsn
  | leaveRoom sn r =>
    exact h.mono (@handle_within P s.manager (.leaveRoom sn r) trivial).snapshots fun _ hsn => hsn
  | unsubscribeRoomChat sn r =>
    exact h.mono (@handle_within P s.manager (.unsubscribeRoomChat sn r) trivial).snapshots
      fun _ hsn => hsn
  | connectSupernode sn => exact h.erase rfl hkeeps
  | removeSupernode sn => exact h.erase aside_removeSupernode.members hkeeps
  | wsDisconnected env sn plan => exact h.erase aside_wsDisconnected.members hkeeps
  | wsConnected env sn rejoin =>
    refine h.mono (fun key set hset => ?_) fun x hx => ?_
    · rwa [show (s.handle P (.wsConnected env sn rejoin)).1.manager.roomGroupMembers = _ from
        aside_wsConnected.members] at hset
    · simp only [Sessions.handle, connectedAfter]
      split
      · exact ExtTreeSet.mem_insert.mpr (.inr hx)
      · exact hx

theorem roomEffect_manage {roomId : String} (h : s.SnapshotsLive)
    (hkeeps : s.KeepsSnapshotsLive e) (hnokey : e.BringsNoKey) :
    RoomEffect P e.draw s.manager (s.manage P e) roomId := by
  cases e with
  | inbound env outer =>
    simp only [manage, ConnectionManager.handle, handleInbound]
    cases hmsg : dispatched env outer with
    | none => exact roomEffect_of_aside (.nothing _)
    | some msg =>
      exact roomEffect_dispatch h.filed (fun htells => (hkeeps msg hmsg htells).2)
        (hnokey msg hmsg)
  | retryPendingGroupKeys env =>
    have hkeying := @retryPendingGroupKeys_keying P env s.manager
    have hid : (s.manager.retryPendingGroupKeys P env).1.publicId = s.manager.publicId := by
      obtain ⟨keys, acks, heq⟩ := hkeying.state
      rw [heq]
    refine roomEffect_of_union hid ?_ hkeying.seals (.inr (.inr ?_))
    · change unionMembersForRoom (s.manager.retryPendingGroupKeys P env).1.roomGroupMembers _ = _
      rw [hkeying.roomGroupMembers]
    · rw [sealKey_eq, sealKey_eq]
      change (s.manager.retryPendingGroupKeys P env).1.groupKeys.inUse roomId = _
      rw [groupKeys_retryPendingGroupKeys]
  | leaveRoom sn r => exact roomEffect_leaveRoom h.filed
  | unsubscribeRoomChat sn r => exact roomEffect_unsubscribeRoomChat h.filed
  | connectSupernode sn =>
    exact roomEffect_of_aside ⟨rfl, rfl, rfl, by simp [manage, ConnectionManager.handle]⟩
  | removeSupernode sn => exact roomEffect_of_aside aside_removeSupernode
  | wsConnected env sn rejoin => exact roomEffect_of_aside aside_wsConnected
  | wsDisconnected env sn plan => exact roomEffect_of_aside aside_wsDisconnected

end Sessions

/-! ## Runs -/

/-- The sessions, every state of the manager so far, and all that was sent. -/
structure RoomLog where
  sessions : Sessions
  past : List ConnectionManager
  sent : List Outgoing

namespace RoomLog

def start (publicId : String) (store : PeerStore) : RoomLog :=
  ⟨.start publicId store, [.start publicId store], []⟩

variable (P : Platform)

def receive (L : RoomLog) (e : RoomEvent) : RoomLog :=
  ⟨(L.sessions.handle P e).1, (L.sessions.handle P e).1.manager :: L.past,
    (L.sessions.handle P e).2 ++ L.sent⟩

/-- The members of a room, as far as any supernode told. -/
abbrev union (L : RoomLog) (roomId : String) : ExtTreeSet String :=
  L.sessions.manager.union roomId

/-- The key was sealed to the peer, or it was in use in the room while the peer
was a member. -/
def Exposed (L : RoomLog) (roomId : String) (key : EpochKey) (p : String) : Prop :=
  (∃ epoch, .groupKey p roomId epoch key ∈ L.sent) ∨
    ∃ c ∈ L.past, p ∈ c.union roomId ∧ c.sealKey P roomId = some key

/-- A random key is one that nobody has seen. -/
def Fresh (L : RoomLog) (e : RoomEvent) : Prop :=
  ∀ key ∈ e.draw, ∀ roomId p, ¬ L.Exposed P roomId key p

/-- No connected supernode lists the peer in the room, and we key the room and
hold a real key of it. -/
structure Departed (L : RoomLog) (roomId p : String) : Prop where
  unlisted : ∀ sn ∈ L.sessions.connected,
    p ∉ members L.sessions.manager.roomGroupMembers (roomScopeKey sn roomId)
  keysRoom : L.sessions.manager.keysRoom roomId = true
  hasRealKey : L.sessions.manager.groupKeys.hasRealKey roomId = true

/-- Frames for the room are sealed under a key the peer never got, minted after
it left. -/
def LockedOut (L : RoomLog) (roomId p : String) : Prop :=
  ∀ key, L.sessions.manager.sealKey P roomId = some key → ¬ L.Exposed P roomId key p

/-- Snapshots are live, and the key of a room we key is known to members only. -/
structure Inv (L : RoomLog) : Prop where
  live : L.sessions.SnapshotsLive
  secret : ∀ roomId key p, L.sessions.manager.sealKey P roomId = some key →
    L.sessions.manager.keysRoom roomId = true → L.Exposed P roomId key p → p ∈ L.union roomId

variable {P} {L : RoomLog} {e : RoomEvent} {roomId p : String}

theorem inv_start (publicId : String) (store : PeerStore) : (start publicId store).Inv P := by
  refine ⟨?_, ?_⟩
  · intro key set hset
    simp [start, Sessions.start, ConnectionManager.start] at hset
  · intro roomId key p hkey
    simp [start, Sessions.start, ConnectionManager.start, ConnectionManager.sealKey,
      SenderKeysGroup.hasRealKey, SenderKeysGroup.new] at hkey

theorem exposed_receive {key : EpochKey}
    (heffect : RoomEffect P e.draw L.sessions.manager (L.sessions.manage P e) roomId)
    (h : (L.receive P e).Exposed P roomId key p) :
    p ∈ (L.receive P e).union roomId ∨ L.Exposed P roomId key p := by
  rcases h with ⟨epoch, hsent⟩ | ⟨c, hc, hp, hkey⟩
  · rcases List.mem_append.mp hsent with hnow | hbefore
    · exact .inl (heffect.seals hnow)
    · exact .inr (.inl ⟨epoch, hbefore⟩)
  · rcases List.mem_cons.mp hc with rfl | hc
    · exact .inl hp
    · exact .inr (.inr ⟨c, hc, hp, hkey⟩)

theorem Inv.receive (h : L.Inv P) (hkeeps : L.sessions.KeepsSnapshotsLive e)
    (hnokey : e.BringsNoKey) (hfresh : L.Fresh P e) : (L.receive P e).Inv P := by
  refine ⟨h.live.handle hkeeps, ?_⟩
  intro roomId key p hkey hkeys hexposed
  have heffect := @Sessions.roomEffect_manage P _ _ roomId h.live hkeeps hnokey
  rcases exposed_receive heffect hexposed with hmember | hbefore
  · exact hmember
  rcases heffect.moves with hnone | ⟨k, hdraw, hk⟩ | ⟨hsame, hstay⟩
  · exact absurd (hkey.symm.trans hnone) (by simp)
  · obtain rfl : key = k := Option.some.inj (hkey.symm.trans hk)
    exact absurd hbefore (hfresh key hdraw roomId p)
  · obtain ⟨hkeysBefore, hsub⟩ := hstay hkeys
    exact hsub p (h.secret roomId key p (hsame.symm.trans hkey) hkeysBefore hbefore)

theorem LockedOut.receive (h : L.LockedOut P roomId p) (hinv : L.Inv P)
    (hkeeps : L.sessions.KeepsSnapshotsLive e) (hnokey : e.BringsNoKey) (hfresh : L.Fresh P e)
    (habsent : p ∉ (L.receive P e).union roomId) : (L.receive P e).LockedOut P roomId p := by
  intro key hkey hexposed
  have heffect := @Sessions.roomEffect_manage P _ _ roomId hinv.live hkeeps hnokey
  rcases exposed_receive heffect hexposed with hmember | hbefore
  · exact habsent hmember
  rcases heffect.moves with hnone | ⟨k, hdraw, hk⟩ | ⟨hsame, -⟩
  · exact absurd (hkey.symm.trans hnone) (by simp)
  · obtain rfl : key = k := Option.some.inj (hkey.symm.trans hk)
    exact hfresh key hdraw roomId p hbefore
  · exact h key (hsame.symm.trans hkey) hbefore

theorem Departed.spec (hinv : L.Inv P) (h : L.Departed roomId p) :
    p ∉ L.union roomId ∧ L.LockedOut P roomId p := by
  have habsent : p ∉ L.union roomId := by
    intro hp
    obtain ⟨sn, hconn, hmem⟩ := hinv.live.mem_union hp
    exact h.unlisted sn hconn hmem
  exact ⟨habsent, fun key hkey hexposed =>
    habsent (hinv.secret roomId key p hkey h.keysRoom hexposed)⟩

variable (P)

/-- What every step of a run is to meet. -/
structure Step (L : RoomLog) (e : RoomEvent) : Prop where
  live : L.sessions.KeepsSnapshotsLive e
  noKey : e.BringsNoKey
  fresh : L.Fresh P e

/-- In every run that brings no keys of others, draws fresh keys and keeps its
snapshots live: whenever no connected supernode lists a peer in a room we key,
the peer is not in the room's union, and as long as no snapshot lists it again,
frames for the room are sealed under keys that were never sealed to it and were
not in use while it was a member. -/
theorem departed_locked_out (publicId : String) (store : PeerStore) (es fs : List RoomEvent)
    (hsteps : Along (receive P) (Step P) (start publicId store) (es ++ fs)) (roomId p : String)
    (hdeparted : (run (receive P) (start publicId store) es).Departed roomId p) :
    p ∉ (run (receive P) (start publicId store) es).union roomId ∧
    (Along (receive P) (fun L e => p ∉ (L.receive P e).union roomId)
        (run (receive P) (start publicId store) es) fs →
      (run (receive P) (start publicId store) (es ++ fs)).LockedOut P roomId p) := by
  obtain ⟨hes, hfs⟩ := along_append.mp hsteps
  have hinv := hes.run_inv (Inv P) (inv_start publicId store)
    fun L e hi he => hi.receive he.live he.noKey he.fresh
  obtain ⟨habsent, hlocked⟩ := hdeparted.spec hinv
  refine ⟨habsent, fun hstays => ?_⟩
  rw [run_append]
  refine ((hfs.and hstays).run_inv (fun L => L.Inv P ∧ L.LockedOut P roomId p)
    ⟨hinv, hlocked⟩ ?_).2
  rintro L e ⟨hi, hl⟩ ⟨he, hnot⟩
  exact ⟨hi.receive he.live he.noKey he.fresh, hl.receive hi he.live he.noKey he.fresh hnot⟩

end RoomLog

/-! ## A supernode that is lost -/

/-- A supernode. -/
def hub : PublicId where
  text := "HHHHHHHHHHHHHHHHHHHHHHHHHHHHHHHHHHHHHHHHHHH="
  valid := by decide

/-- Its sibling. -/
def spare : PublicId where
  text := "SSSSSSSSSSSSSSSSSSSSSSSSSSSSSSSSSSSSSSSSSSS="
  valid := by decide

/-- A supernode gives the members of a room, and the next random key is filled
with the given byte. -/
def lists (byte : UInt8) (supernode : PublicId) (ids : List PublicId) : RoomEvent :=
  .inbound { Env.permissive with randomKey := List.replicate 32 byte }
    { msgType := .sfuMembers
      sender := supernode
      payload := .obj [("room_id", .str "den"), ("members", .arr (ids.map fun id => .str id.text))] }

namespace RoomLog

/-- Alice keys a room that one supernode lists Bob in and another nobody. The
first is lost, and the second still lists nobody. -/
def hubLost : List RoomEvent :=
  [.connectSupernode hub.text, .wsConnected .permissive hub.text none,
    .connectSupernode spare.text, .wsConnected .permissive spare.text none,
    lists 1 hub [bob], .wsDisconnected .permissive hub.text none, lists 2 spare []]

/-- With one supernode connected, its snapshot alone tells who departed. -/
theorem departed_of_connected {L : RoomLog} {sn roomId p : String}
    (hconn : L.sessions.connected.toList = [sn])
    (hunlisted : p ∉ members L.sessions.manager.roomGroupMembers (roomScopeKey sn roomId))
    (hkeys : L.sessions.manager.keysRoom roomId = true)
    (hreal : L.sessions.manager.groupKeys.hasRealKey roomId = true) : L.Departed roomId p := by
  refine ⟨fun sn' hsn => ?_, hkeys, hreal⟩
  rw [← ExtTreeSet.mem_toList, hconn] at hsn
  rw [List.mem_singleton.mp hsn]
  exact hunlisted

/-- No connected supernode lists Bob, and Alice still holds him a member and
seals under the key she sealed to him. -/
theorem bob_stays_after_hub_lost :
    (run (receive .symbolic) (start alice.text ⟨∅⟩) hubLost).Departed "den" bob.text ∧
    bob.text ∈ (run (receive .symbolic) (start alice.text ⟨∅⟩) hubLost).union "den" ∧
    ¬ (run (receive .symbolic) (start alice.text ⟨∅⟩) hubLost).LockedOut .symbolic "den"
      bob.text := by
  generalize hL : run (receive .symbolic) (start alice.text ⟨∅⟩) hubLost = L
  obtain ⟨hconn, hunlisted, hkeys, hreal, hmember, hkey, hsent⟩ :
      L.sessions.connected.toList = [spare.text] ∧
      bob.text ∉ members L.sessions.manager.roomGroupMembers (roomScopeKey spare.text "den") ∧
      L.sessions.manager.keysRoom "den" = true ∧
      L.sessions.manager.groupKeys.hasRealKey "den" = true ∧
      bob.text ∈ L.union "den" ∧
      L.sessions.manager.sealKey .symbolic "den" = some (List.replicate 32 1) ∧
      .groupKey bob.text "den" 0 (List.replicate 32 1) ∈ L.sent := by
    rw [← hL]
    decide +kernel
  refine ⟨departed_of_connected hconn hunlisted hkeys hreal, hmember, fun hlocked => ?_⟩
  exact hlocked _ hkey (.inl ⟨0, hsent⟩)

/-- A step from a state without any key in use: what is in use after it was
drawn by it. -/
theorem sealKey_of_none {L : RoomLog} {e : RoomEvent} (hinv : L.sessions.SnapshotsLive)
    (hkeeps : L.sessions.KeepsSnapshotsLive e) (hnokey : e.BringsNoKey) {P : Platform}
    (hnone : ∀ roomId, L.sessions.manager.sealKey P roomId = none) {roomId : String}
    {key : EpochKey} (hkey : (L.receive P e).sessions.manager.sealKey P roomId = some key) :
    key ∈ e.draw := by
  have heffect := @Sessions.roomEffect_manage P _ _ roomId hinv hkeeps hnokey
  rcases heffect.moves with hgone | ⟨k, hdraw, hk⟩ | ⟨hsame, -⟩
  · exact absurd (hkey.symm.trans hgone) (by simp)
  · exact Option.some.inj (hkey.symm.trans hk) ▸ hdraw
  · exact absurd (hkey.symm.trans (hsame.trans (hnone roomId))) (by simp)

theorem lists_spec {L : RoomLog} (byte : UInt8) {supernode : PublicId} (ids : List PublicId)
    (h : supernode.text ∈ L.sessions.connected) :
    L.sessions.KeepsSnapshotsLive (lists byte supernode ids) ∧
      (lists byte supernode ids).BringsNoKey := by
  refine ⟨fun msg hmsg _ => ?_, fun msg hmsg => ?_⟩
  · cases hmsg
    refine ⟨h, ?_⟩
    change ':' ∉ "den".toList
    decide
  · cases hmsg
    exact MessageType.noConfusion

theorem fresh_lists {P : Platform} {L : RoomLog} {byte : UInt8} {supernode : PublicId}
    {ids : List PublicId}
    (hsent : ∀ p roomId epoch, .groupKey p roomId epoch (List.replicate 32 byte) ∉ L.sent)
    (hpast : ∀ c ∈ L.past, ∀ roomId, c.sealKey P roomId ≠ some (List.replicate 32 byte)) :
    L.Fresh P (lists byte supernode ids) := by
  intro key hkey roomId p hexposed
  obtain rfl : List.replicate 32 byte = key := Option.some.inj hkey
  rcases hexposed with ⟨epoch, hmem⟩ | ⟨c, hc, -, huse⟩
  · exact hsent p roomId epoch hmem
  · exact hpast c hc roomId huse

def hubConnected : List RoomEvent :=
  [.connectSupernode hub.text, .wsConnected .permissive hub.text none]

theorem hubConnected_spec :
    Along (receive .symbolic) (Step .symbolic) (start alice.text ⟨∅⟩) hubConnected ∧
    ∀ c ∈ (run (receive .symbolic) (start alice.text ⟨∅⟩) hubConnected).past, ∀ roomId,
      c.sealKey .symbolic roomId = none := by
  refine ⟨⟨⟨fun roomId => rfl, trivial, nofun⟩, ⟨trivial, trivial, nofun⟩, trivial⟩, ?_⟩
  intro c hc roomId
  rw [sealKey_eq]
  simp only [hubConnected, run_cons, run_nil, receive, start, List.mem_cons,
    List.not_mem_nil, or_false] at hc
  rcases hc with rfl | rfl | rfl
  · rfl
  · rfl
  · rfl

/-- Bob is listed, and then somebody else in his place. -/
def bobReplaced : List RoomEvent :=
  hubConnected ++ [lists 1 hub [bob], lists 2 hub [spare]]

theorem bobReplaced_steps :
    Along (receive .symbolic) (Step .symbolic) (start alice.text ⟨∅⟩) bobReplaced := by
  obtain ⟨hsteps, hunused⟩ := hubConnected_spec
  have hinv := hsteps.run_inv (Inv .symbolic) (inv_start alice.text ⟨∅⟩)
    fun L e hi he => hi.receive he.live he.noKey he.fresh
  refine along_append.mpr ⟨hsteps, ?_, ?_, trivial⟩
  · have hspec := @lists_spec (run (receive .symbolic) (start alice.text ⟨∅⟩) hubConnected) 1 hub
      [bob] (by decide +kernel)
    refine ⟨hspec.1, hspec.2, fresh_lists ?_ fun c hc roomId => ?_⟩
    · intro p roomId epoch hmem
      simp [hubConnected, receive, start, Sessions.handle, Sessions.manage, wsConnected,
        ConnectionManager.handle] at hmem
    · rw [hunused c hc roomId]
      exact Option.some_ne_none _ |>.symm
  · have hspec := @lists_spec (run (receive .symbolic) (start alice.text ⟨∅⟩) hubConnected) 1 hub
      [bob] (by decide +kernel)
    obtain ⟨hconn, hsent⟩ :
        hub.text ∈ (run (receive .symbolic) (start alice.text ⟨∅⟩)
          (hubConnected ++ [lists 1 hub [bob]])).sessions.connected ∧
        (run (receive .symbolic) (start alice.text ⟨∅⟩) (hubConnected ++ [lists 1 hub [bob]])).sent =
          [.groupKey bob.text "den" 0 (List.replicate 32 1), .roomListRequest hub.text] := by
      decide +kernel
    rw [run_append] at hconn hsent
    refine ⟨(lists_spec 2 [spare] hconn).1, (lists_spec 2 [spare] hconn).2,
      fresh_lists ?_ fun c hc roomId huse => ?_⟩
    · intro p roomId epoch hmem
      rw [show (receive .symbolic _ (lists 1 hub [bob])).sent = _ from hsent] at hmem
      simp at hmem
    · rcases List.mem_cons.mp hc with rfl | hc
      · have hdraw := sealKey_of_none hinv.live hspec.1 hspec.2
          (hunused _ List.mem_cons_self) huse
        exact absurd (Option.some.inj hdraw) (by decide)
      · exact absurd (huse.symm.trans (hunused c hc roomId)) (by simp)

/-- Bob is out of the room and locked out. -/
theorem bob_locked_out :
    bob.text ∉ (run (receive .symbolic) (start alice.text ⟨∅⟩) bobReplaced).union "den" ∧
    (run (receive .symbolic) (start alice.text ⟨∅⟩) bobReplaced).LockedOut .symbolic "den"
      bob.text := by
  have hsteps : Along (receive .symbolic) (Step .symbolic) (start alice.text ⟨∅⟩)
      (bobReplaced ++ []) := by
    rw [List.append_nil]
    exact bobReplaced_steps
  have hdeparted : (run (receive .symbolic) (start alice.text ⟨∅⟩) bobReplaced).Departed "den"
      bob.text := by
    generalize hL : run (receive .symbolic) (start alice.text ⟨∅⟩) bobReplaced = L
    obtain ⟨hconn, hunlisted, hkeys, hreal⟩ :
        L.sessions.connected.toList = [hub.text] ∧
        bob.text ∉ members L.sessions.manager.roomGroupMembers (roomScopeKey hub.text "den") ∧
        L.sessions.manager.keysRoom "den" = true ∧
        L.sessions.manager.groupKeys.hasRealKey "den" = true := by
      rw [← hL]
      decide +kernel
    exact departed_of_connected hconn hunlisted hkeys hreal
  obtain ⟨habsent, hlocked⟩ :=
    departed_locked_out .symbolic alice.text ⟨∅⟩ bobReplaced [] hsteps "den" bob.text hdeparted
  rw [List.append_nil] at hlocked
  exact ⟨habsent, hlocked trivial⟩

end RoomLog

end ConquerD.Client
