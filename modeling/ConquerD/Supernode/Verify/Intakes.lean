import ConquerD.Supernode.Sockets
import ConquerD.Supernode.Verify.Replay

/-!
# Supernode: the two ways in

A signed frame arrives on a WebSocket or on the reliable stream of the relay. Both
ways ask for the same size, signature and freshness, and share the replay guard.
The read loop spares file payload and audio the guard; the relay does not. On any
other frame the two ways agree, so they can be exchanged delivery by delivery.
-/

namespace ConquerD.Supernode

open ConquerD.Features Lib.Encoding Lib.Run Lib.Window Wire

variable {τ : Type} (P : Platform) (C : Codec τ)

/-- The messages the read loop does not show to the replay guard. -/
def replayExempt (mt : τ) : Bool :=
  isBulkFileData C mt || isSfuAudio C mt

/-- A frame of this message passes every check that comes before the replay guard's. -/
structure PassesToGuard (now : Rat) (raw : String) (m : Envelope τ) : Prop where
  size : raw.utf8ByteSize ≤ maxFrameBytes
  parsed : Signaling.fromJson P C raw = some m
  verified : Signaling.verify P C m = true
  fresh : m.isFresh now maxMessageAgeSecs = true

/-- The limiter of the connection lets the frame by. -/
def Admits (conn : WsConnection) (f : WsFrame) : Prop :=
  ∀ m, Signaling.fromJson P C f.raw = some m → (conn.countFrame C m.msgType f.instant).2 = true

/-- On every connection that admits the frame, the read loop hands on what the relay
accepts, and leaves the guard as the relay does. -/
def IntakesAgree (guard : ReplayGuard) (now : Rat) (raw : String) : Prop :=
  ∀ (conn : WsConnection) (f : WsFrame), f.raw = raw → f.now = now → Admits P C conn f →
    (checkFrame P C guard conn f).1 = (SignalingServer.acceptSigned P C ⟨guard⟩ now raw).1 ∧
    (checkFrame P C guard conn f).2.1 =
      (SignalingServer.acceptSigned P C ⟨guard⟩ now raw).2.replayGuard

/-! ## The guard's part -/

/-- What the guard makes of a message, by its signature. -/
def guardCheck (guard : ReplayGuard) (now : Rat) (m : Envelope τ) :
    Option (Envelope τ) × ReplayGuard :=
  match m.signature with
  | none => (none, guard)
  | some sig =>
    let checked := guard.checkAndRecordAt m.sender (utf8Bytes sig) now
    (if checked.1 then some m else none, checked.2)

variable {P C} {guard : ReplayGuard} {now : Rat} {raw : String} {m : Envelope τ}

/-- A pair that is let through is held from then on, so the guard is not what it was. -/
theorem checkAndRecordAt_changes (hwindow : 0 < guard.window) {sender : String}
    {signature : Bytes} (h : (guard.checkAndRecordAt sender signature now).1 = true) :
    (guard.checkAndRecordAt sender signature now).2 ≠ guard := by
  intro hsame
  rcases guard.checkAndRecordAt_cases sender signature now with hc | hc | ⟨hnew, hc⟩
  · rw [hc] at h
    cases h
  · rw [hc] at h
    cases h
  · rw [hc] at hsame
    have hseen : guard.seen sender =
        (sigKey signature, now) :: prune guard.window now (guard.seen sender) := by
      have hset := congrArg (ReplayGuard.seen · sender) hsame
      exact hset.symm.trans (ReplayGuard.seen_setSeen_self _ _ _)
    have hlive : (sigKey signature, now) ∈ prune guard.window now (guard.seen sender) := by
      refine List.mem_filter.mpr ⟨?_, ?_⟩
      · rw [hseen]
        exact List.mem_cons_self
      · simpa using hwindow.le
    exact hnew (List.mem_map_of_mem hlive)

/-- Unlike the read loop without its guard, the guard never hands a message on and stays
as it was. -/
theorem guardCheck_ne (hwindow : 0 < guard.window) : guardCheck guard now m ≠ (some m, guard) := by
  intro h
  unfold guardCheck at h
  split at h
  · cases h
  · next sig hsig =>
    by_cases hpass : (guard.checkAndRecordAt m.sender (utf8Bytes sig) now).1 = true
    · exact checkAndRecordAt_changes hwindow hpass (congrArg Prod.snd h)
    · have hnone := congrArg Prod.fst h
      dsimp only at hnone
      rw [if_neg hpass] at hnone
      cases hnone

/-! ## The two ways -/

theorem acceptSigned_of_not_passes (h : ∀ m, ¬ PassesToGuard P C now raw m) :
    SignalingServer.acceptSigned P C ⟨guard⟩ now raw = (none, ⟨guard⟩) := by
  unfold SignalingServer.acceptSigned
  by_cases hsize : raw.utf8ByteSize > maxFrameBytes
  · exact if_pos hsize
  rw [if_neg hsize]
  cases hm : Signaling.fromJson P C raw with
  | none => rfl
  | some m =>
    refine if_pos ?_
    by_contra hgood
    simp only [Bool.or_eq_true, Bool.not_eq_true', not_or, Bool.not_eq_false] at hgood
    exact h m ⟨Nat.le_of_not_lt hsize, hm, hgood.1, hgood.2⟩

theorem acceptSigned_of_passes (h : PassesToGuard P C now raw m) :
    SignalingServer.acceptSigned P C ⟨guard⟩ now raw =
      ((guardCheck guard now m).1, ⟨(guardCheck guard now m).2⟩) := by
  have hgood : ¬ (!Signaling.verify P C m || !m.isFresh now maxMessageAgeSecs) = true := by
    simp [h.verified, h.fresh]
  unfold SignalingServer.acceptSigned guardCheck
  rw [if_neg (Nat.not_lt.mpr h.size), h.parsed]
  simp only [if_neg hgood]
  cases m.signature with
  | none => rfl
  | some sig => rfl

variable {conn : WsConnection} {f : WsFrame}

theorem checkFrame_of_not_passes (hgate : Admits P C conn f)
    (h : ∀ m, ¬ PassesToGuard P C f.now f.raw m) :
    (checkFrame P C guard conn f).1 = none ∧ (checkFrame P C guard conn f).2.1 = guard := by
  unfold checkFrame
  by_cases hsize : f.raw.utf8ByteSize > maxFrameBytes
  · rw [if_pos hsize]
    exact ⟨rfl, rfl⟩
  rw [if_neg hsize]
  cases hm : Signaling.fromJson P C f.raw with
  | none => exact ⟨rfl, rfl⟩
  | some m =>
    have hbad : (!Signaling.verify P C m || !m.isFresh f.now maxMessageAgeSecs) = true := by
      by_contra hgood
      simp only [Bool.or_eq_true, Bool.not_eq_true', not_or, Bool.not_eq_false] at hgood
      exact h m ⟨Nat.le_of_not_lt hsize, hm, hgood.1, hgood.2⟩
    simp [hgate m hm, hbad]

theorem checkFrame_of_passes (guard : ReplayGuard) (hgate : Admits P C conn f)
    (h : PassesToGuard P C f.now f.raw m) :
    ((checkFrame P C guard conn f).1, (checkFrame P C guard conn f).2.1) =
      if replayExempt C m.msgType then (some m, guard) else guardCheck guard f.now m := by
  have hcount := hgate m h.parsed
  have hgood : ¬ (!Signaling.verify P C m || !m.isFresh f.now maxMessageAgeSecs) = true := by
    simp [h.verified, h.fresh]
  unfold checkFrame guardCheck replayExempt
  rw [if_neg (Nat.not_lt.mpr h.size), h.parsed]
  simp only [hcount, Bool.not_true, Bool.false_eq_true, if_false, if_neg hgood]
  by_cases hexempt : (isBulkFileData C m.msgType || isSfuAudio C m.msgType) = true
  · simp only [if_pos hexempt]
  · simp only [if_neg hexempt]
    cases m.signature with
    | none => rfl
    | some sig => rfl

theorem agree_of_not_exempt (guard : ReplayGuard)
    (h : ∀ m, PassesToGuard P C now raw m → replayExempt C m.msgType = false) :
    IntakesAgree P C guard now raw := by
  rintro conn f rfl rfl hgate
  by_cases hpass : ∃ m, PassesToGuard P C f.now f.raw m
  · obtain ⟨m, hm⟩ := hpass
    have hloop := checkFrame_of_passes guard hgate hm
    rw [if_neg (by simp [h m hm])] at hloop
    rw [acceptSigned_of_passes hm, ← hloop]
    exact ⟨rfl, rfl⟩
  · have hnone := not_exists.mp hpass
    rw [acceptSigned_of_not_passes hnone]
    exact checkFrame_of_not_passes hgate hnone

/-- A connection that has just been opened. -/
def WsConnection.opened : WsConnection :=
  ⟨∅, none, 0, 0, false⟩

theorem admits_of_exempt (hm : Signaling.fromJson P C f.raw = some m)
    (hexempt : replayExempt C m.msgType = true) : Admits P C conn f := by
  intro m' hm'
  obtain rfl := Option.some.inj (hm.symm.trans hm')
  unfold WsConnection.countFrame
  exact congrArg Prod.snd (if_pos hexempt)

/-- A frame and the connection it comes on, if it does not come on the relay. -/
structure Arrival where
  frame : WsFrame
  conn : Option WsConnection

namespace Arrival

variable (P C)

/-- The guard after an arrival, and what was handed on so far, the latest first. -/
def take (s : ReplayGuard × List (Envelope τ)) (a : Arrival) :
    ReplayGuard × List (Envelope τ) :=
  match a.conn with
  | some conn =>
    let checked := checkFrame P C s.1 conn a.frame
    (checked.2.1, checked.1.toList ++ s.2)
  | none =>
    let accepted := SignalingServer.acceptSigned P C ⟨s.1⟩ a.frame.now a.frame.raw
    (accepted.2.replayGuard, accepted.1.toList ++ s.2)

/-- The same frame on the relay. -/
def relayed (a : Arrival) : Arrival :=
  { a with conn := none }

/-- Admitted, and not exempt past the checks before the guard's. -/
structure Plain (a : Arrival) : Prop where
  admitted : ∀ conn, a.conn = some conn → Admits P C conn a.frame
  shown : ∀ m, PassesToGuard P C a.frame.now a.frame.raw m → replayExempt C m.msgType = false

theorem take_relayed {a : Arrival} (h : a.Plain P C) (s : ReplayGuard × List (Envelope τ)) :
    take P C s a.relayed = take P C s a := by
  obtain ⟨frame, conn⟩ := a
  cases conn with
  | none => rfl
  | some conn =>
    have hagree := agree_of_not_exempt s.1 h.shown
    obtain ⟨hsame, hguard⟩ := hagree conn frame rfl rfl (h.admitted conn rfl)
    simp only [take, relayed, hsame, hguard]

/-- A ping that comes twice on one socket. -/
def pings : List Arrival :=
  List.replicate 2 ⟨⟨pingText 0, 0, 0, true⟩, some .opened⟩

end Arrival

/-! ## A chunk that comes twice -/

/-- A signed chunk of a file. -/
def chunkJson : Json :=
  .obj [("type", .str "file_transfer_chunk"), ("sender", .str onesId), ("timestamp", .int 0),
    ("signature", .str twosSignature)]

def chunkText : String :=
  "\x7b\"type\":\"file_transfer_chunk\",\"sender\":\"" ++ onesId ++
    "\",\"timestamp\":0,\"signature\":\"" ++ twosSignature ++ "\"\x7d"

/-- A platform that reads the chunk. -/
def chunkPlatform : Platform :=
  { Platform.oneKey with jsonFromStr := fun s => if s = chunkText then some chunkJson else none }

/-- Two kinds of message: chunks, which are exempt, and pings. -/
def chunkCodec : Codec Bool where
  typeFromValue j :=
    if j.asStr? = some "file_transfer_chunk" then some true
    else if j.asStr? = some "ping" then some false else none
  asWireStr chunk := if chunk then "file_transfer_chunk" else "ping"
  asF64 j := j.asI64?.map fun n => (n : Rat)
  fromF64 _ := .null

/-- The guard when the chunk has come on the relay. -/
def guardAfterChunk : ReplayGuard :=
  (SignalingServer.acceptSigned chunkPlatform chunkCodec .new 0 chunkText).2.replayGuard

end ConquerD.Supernode
