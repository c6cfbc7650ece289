import ConquerD.Features.Verify.Replay
import ConquerD.Lib.Run
import ConquerD.Supernode.Signaling
import Mathlib.Tactic.Linarith

/-!
# Supernode: no frame is routed twice

The freshness check looks both ways and the guard counts from the first
delivery. A frame dated ahead of the clock is therefore still fresh when the
guard has let go of it. Frames that come back after the window without having
been dated ahead when they were accepted are refused: those dated at most at
their first acceptance are stale by then.
-/

namespace ConquerD.Supernode

open ConquerD.Features Lib.Encoding Lib.Run Wire

/-- A raw frame and the time it arrives. -/
structure Delivery where
  now : Rat
  raw : String

/-- A server, the time of its last delivery, and what it has accepted so far,
with the time of each. -/
structure SignalingLog (τ : Type) where
  server : SignalingServer
  clock : Rat
  accepted : List (Rat × Envelope τ)

namespace SignalingLog

variable {τ : Type} (P : Platform) (C : Codec τ)

def start (server : SignalingServer) (clock : Rat) : SignalingLog τ :=
  ⟨server, clock, []⟩

/-- The server takes a frame. -/
def receive (L : SignalingLog τ) (d : Delivery) : SignalingLog τ where
  server := (L.server.acceptSigned P C d.now d.raw).2
  clock := d.now
  accepted := ((L.server.acceptSigned P C d.now d.raw).1.map (d.now, ·)).toList ++ L.accepted

def pairs (L : SignalingLog τ) : List (String × Option String) :=
  L.accepted.map fun e => (e.2.sender, e.2.signature)

/-- If the pair of the frame was accepted before, it comes back inside the guard's
window, or it is dated no later than it was accepted, or it is stale by now. -/
def NotDatedAhead (L : SignalingLog τ) (d : Delivery) : Prop :=
  ∀ m, Signaling.fromJson P C d.raw = some m → ∀ e ∈ L.accepted,
    (e.2.sender, e.2.signature) = (m.sender, m.signature) →
      d.now ≤ e.1 + maxMessageAgeSecs ∨ m.timestamp ≤ e.1 ∨ m.timestamp + maxMessageAgeSecs < d.now

/-- What was accepted, as the guard sees it. -/
def history (L : SignalingLog τ) : List Sighting :=
  L.accepted.map fun e => ⟨e.2.sender, utf8Bytes (e.2.signature.getD ""), e.1⟩

/-- The guard knows every frame accepted within the window, and no pair was
accepted twice. -/
structure Inv (L : SignalingLog τ) : Prop where
  window : L.server.replayGuard.window = maxMessageAgeSecs
  remembers : L.server.replayGuard.Remembers L.clock L.history
  nodup : L.pairs.Nodup

theorem inv_start {server : SignalingServer}
    (h : server.replayGuard.window = maxMessageAgeSecs) (clock : Rat) :
    (start server clock : SignalingLog τ).Inv :=
  ⟨h, ReplayGuard.remembers_nil _ clock, List.nodup_nil⟩

variable {P C}

theorem acceptSigned_cases (s : SignalingServer) (now : Rat) (raw : String) :
    s.acceptSigned P C now raw = (none, s) ∨
    ∃ m sig, Signaling.fromJson P C raw = some m ∧ m.signature = some sig ∧
      m.isFresh now maxMessageAgeSecs = true ∧
      s.acceptSigned P C now raw =
        (if (s.replayGuard.checkAndRecordAt m.sender (utf8Bytes sig) now).1 then some m else none,
          ⟨(s.replayGuard.checkAndRecordAt m.sender (utf8Bytes sig) now).2⟩) := by
  unfold SignalingServer.acceptSigned
  by_cases hsize : raw.utf8ByteSize > maxFrameBytes
  · exact .inl (if_pos hsize)
  rw [if_neg hsize]
  cases hm : Signaling.fromJson P C raw with
  | none => exact .inl rfl
  | some m =>
    by_cases hbad : (!Signaling.verify P C m || !m.isFresh now maxMessageAgeSecs) = true
    · exact .inl (if_pos hbad)
    · simp only [if_neg hbad]
      cases hsig : m.signature with
      | none => exact .inl rfl
      | some sig =>
        have hfresh : m.isFresh now maxMessageAgeSecs = true := by
          simp only [Bool.or_eq_true, Bool.not_eq_eq_eq_not, Bool.not_true, not_or,
            Bool.not_eq_false] at hbad
          exact hbad.2
        exact .inr ⟨m, sig, rfl, hsig, hfresh, rfl⟩

/-- A frame that passes has not been accepted before: had it been, the guard
would have let go of it, and it would be stale. -/
theorem Inv.pair_new {L : SignalingLog τ} (h : L.Inv) {now : Rat} {m : Envelope τ}
    {sig : String} (hclock : L.clock ≤ now) (hsig : m.signature = some sig)
    (hfresh : m.isFresh now maxMessageAgeSecs = true)
    (hnew : (L.server.replayGuard.checkAndRecordAt m.sender (utf8Bytes sig) now).1 = true)
    (hcond : ∀ e ∈ L.accepted, (e.2.sender, e.2.signature) = (m.sender, m.signature) →
      now ≤ e.1 + maxMessageAgeSecs ∨ m.timestamp ≤ e.1 ∨ m.timestamp + maxMessageAgeSecs < now) :
    (m.sender, m.signature) ∉ L.pairs := by
  intro hmem
  obtain ⟨e, he, hpair⟩ := List.mem_map.mp hmem
  have haged : maxMessageAgeSecs < now - e.1 := by
    rw [← h.window]
    refine h.remembers.aged hclock hnew (List.mem_map_of_mem he) ?_ ?_
    · exact congrArg Prod.fst hpair
    · have hs : e.2.signature = some sig := (congrArg Prod.snd hpair).trans hsig
      rw [hs]
      rfl
  have hage := Envelope.age_le_of_isFresh hfresh
  rcases hcond e he hpair with hin | hdated | hstale
  · linarith
  · linarith
  · linarith

theorem Inv.receive {L : SignalingLog τ} (h : L.Inv) {d : Delivery} (hclock : L.clock ≤ d.now)
    (hcond : L.NotDatedAhead P C d) : (L.receive P C d).Inv := by
  rcases acceptSigned_cases L.server d.now d.raw (P := P) (C := C) with
    hc | ⟨m, sig, hm, hsig, hfresh, hc⟩
  · have hlog : L.receive P C d = { L with clock := d.now } := by
      simp [SignalingLog.receive, hc]
    rw [hlog]
    exact ⟨h.window, h.remembers.later hclock, h.nodup⟩
  by_cases hnew : (L.server.replayGuard.checkAndRecordAt m.sender (utf8Bytes sig) d.now).1 = true
  · have hlog : L.receive P C d = ⟨⟨(L.server.replayGuard.checkAndRecordAt m.sender
        (utf8Bytes sig) d.now).2⟩, d.now, (d.now, m) :: L.accepted⟩ := by
      simp [SignalingLog.receive, hc, hnew]
    rw [hlog]
    refine ⟨?_, ?_, ?_⟩
    · simpa using h.window
    · have hacc := h.remembers.accepted hclock hnew
      simpa [history, hsig] using hacc
    · exact List.nodup_cons.mpr
        ⟨h.pair_new hclock hsig hfresh hnew (hcond m hm), h.nodup⟩
  · have hrefused := Bool.eq_false_iff.mpr hnew
    have hlog : L.receive P C d = ⟨⟨(L.server.replayGuard.checkAndRecordAt m.sender
        (utf8Bytes sig) d.now).2⟩, d.now, L.accepted⟩ := by
      simp [SignalingLog.receive, hc, hrefused]
    rw [hlog]
    refine ⟨?_, ?_, h.nodup⟩
    · simpa using h.window
    · exact h.remembers.refused hclock hrefused

variable (P C)

/-- The clock of a server whose deliveries come in order never runs back. -/
theorem along_clock {L : SignalingLog τ} {ds : List Delivery}
    (h : (L.clock :: ds.map Delivery.now).Pairwise (· ≤ ·)) :
    Along (receive P C) (fun L d => L.clock ≤ d.now) L ds := by
  induction ds generalizing L with
  | nil => trivial
  | cons d ds ih =>
    have hd : L.clock ≤ d.now := (List.pairwise_cons.mp h).1 _ List.mem_cons_self
    exact ⟨hd, ih (List.pairwise_cons.mp h).2⟩

/-- Over any deliveries in order of time, from any state of a guard of the
server's window: if no frame comes back after the window that was dated ahead
when it was accepted, no pair of sender and signature is accepted twice. -/
theorem accepted_once (server : SignalingServer)
    (hwindow : server.replayGuard.window = SignalingServer.new.replayGuard.window) (clock : Rat)
    (ds : List Delivery) (htime : (clock :: ds.map Delivery.now).Pairwise (· ≤ ·))
    (hcond : Along (receive P C) (NotDatedAhead P C) (start server clock) ds) :
    (run (receive P C) (start server clock) ds).pairs.Nodup := by
  have hboth := (along_clock P C (L := start server clock) htime).and hcond
  have hstart : (start server clock : SignalingLog τ).Inv := by
    refine inv_start (hwindow.trans ?_) clock
    rfl
  exact (hboth.run_inv Inv hstart fun L d hi hd => hi.receive hd.1 hd.2).nodup

end SignalingLog

/-! ## A frame and its return -/

/-- A signed ping. -/
def pingJson (timestamp : Int) : Json :=
  .obj [("type", .str "ping"), ("sender", .str onesId), ("timestamp", .int timestamp),
    ("signature", .str twosSignature)]

/-- The text of a signed ping. -/
def pingText (timestamp : Int) : String :=
  "\x7b\"type\":\"ping\",\"sender\":\"" ++ onesId ++ "\",\"timestamp\":" ++ toString timestamp ++
    ",\"signature\":\"" ++ twosSignature ++ "\"\x7d"

/-- A platform that reads the pings dated 0 and 300. -/
def pingPlatform : Platform :=
  { Platform.oneKey with
    jsonFromStr := fun s =>
      if s = pingText 0 then some (pingJson 0)
      else if s = pingText 300 then some (pingJson 300) else none }

/-- Pings are the only messages. -/
def pingCodec : Codec Unit where
  typeFromValue j := if j.asStr? = some "ping" then some () else none
  asWireStr _ := "ping"
  asF64 j := j.asI64?.map fun n => (n : Rat)
  fromF64 _ := .null

/-- A ping dated five minutes ahead is accepted when it arrives and again five
minutes later, when the guard no longer knows it. -/
theorem datedAhead_accepted_twice :
    (0 :: [Delivery.mk 0 (pingText 300), ⟨301, pingText 300⟩].map Delivery.now).Pairwise
        (· ≤ ·) ∧
    ¬ (run (SignalingLog.receive pingPlatform pingCodec) (.start .new 0)
      [Delivery.mk 0 (pingText 300), ⟨301, pingText 300⟩]).pairs.Nodup := by
  decide +kernel

theorem fromJson_ping : (Signaling.fromJson pingPlatform pingCodec (pingText 0)).map
    Envelope.timestamp = some 0 := by
  decide +kernel

/-- Every return of a ping dated 0 meets the condition, from time 0 on. -/
theorem notDatedAhead_ping (L : SignalingLog Unit) (hpast : ∀ e ∈ L.accepted, 0 ≤ e.1)
    (now : Rat) : L.NotDatedAhead pingPlatform pingCodec ⟨now, pingText 0⟩ := by
  intro m hm e he _
  have htime : m.timestamp = 0 := by
    have hping := fromJson_ping
    rw [show Signaling.fromJson pingPlatform pingCodec (pingText 0) = some m from hm] at hping
    exact Option.some.inj hping
  exact .inr (.inl (htime ▸ hpast e he))

/-- The ping dated 0 comes at 0, again within the window and again after it, and
is accepted once. -/
theorem ping_accepted_once :
    (run (SignalingLog.receive pingPlatform pingCodec) (.start .new 0)
      [Delivery.mk 0 (pingText 0), ⟨100, pingText 0⟩, ⟨301, pingText 0⟩]).pairs.Nodup := by
  refine SignalingLog.accepted_once pingPlatform pingCodec .new rfl 0 _ (by decide +kernel) ?_
  refine ⟨?_, ?_, ?_, trivial⟩
  · exact notDatedAhead_ping _ (by decide +kernel) 0
  · exact notDatedAhead_ping _ (by decide +kernel) 100
  · exact notDatedAhead_ping _ (by decide +kernel) 301

end ConquerD.Supernode
