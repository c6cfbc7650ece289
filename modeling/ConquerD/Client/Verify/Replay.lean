import ConquerD.Client.Replay
import ConquerD.Features.Verify.Replay
import ConquerD.Lib.Run
import Mathlib.Tactic.Linarith

/-!
# Client: a message passes its checks once

A message that was not dated ahead is stale when the guard has let go of it, so
it passes once, unless the guard lets go of it early: the end of a session
drops the replay window of its peer with whatever is still inside. Runs in
which no window is dropped with an entry of the last five minutes in it let no
message pass twice.
-/

namespace ConquerD.Client

open ConquerD.Features Lib.Encoding Lib.Run Wire

/-- What happens to the links of a client, and when. -/
inductive LinkEvent where
  | arrival (a : Arrival)
  | relabelled (now : Rat) (current canonical : String)
  | quicDisconnected (now : Rat) (peerId : String)
  | wsDisconnected (now : Rat) (peerId : String)

def LinkEvent.now : LinkEvent → Rat
  | arrival a => a.now
  | relabelled now _ _ => now
  | quicDisconnected now _ => now
  | wsDisconnected now _ => now

/-- An inbox, the time of the last event, and the messages that passed, with the
time of each. -/
structure InboxLog where
  inbox : Inbox
  clock : Rat
  passed : List (Rat × Envelope SignalType)

namespace InboxLog

variable (P : Platform) (C : Codec SignalType)

def start (inbox : Inbox) (clock : Rat) : InboxLog :=
  ⟨inbox, clock, []⟩

def receive (L : InboxLog) : LinkEvent → InboxLog
  | .arrival a =>
    ⟨(L.inbox.handleInboundInner P C a).2, a.now,
      (L.inbox.handleInboundInner P C a).1.map (a.now, ·) ++ L.passed⟩
  | .relabelled now current canonical =>
    { L with inbox := L.inbox.relabelQuicPeerSession current canonical, clock := now }
  | .quicDisconnected now peerId =>
    { L with inbox := L.inbox.quicDisconnected peerId, clock := now }
  | .wsDisconnected now peerId =>
    { L with inbox := L.inbox.wsDisconnected peerId, clock := now }

/-- A window is dropped only when nothing in it is younger than the window. -/
def DropsIdle (L : InboxLog) : LinkEvent → Prop
  | .arrival _ => True
  | .relabelled _ _ _ => True
  | .quicDisconnected now peerId =>
    L.inbox.replayGuard.Idle (L.inbox.resolveQuicPeerAlias peerId) now
  | .wsDisconnected now peerId => L.inbox.replayGuard.Idle peerId now

/-- Two messages that are one to the guard: not exempt, with one sender and one
signature. -/
def Copies (a b : Envelope SignalType) : Prop :=
  a.msgType.dedupExempt = false ∧ b.msgType.dedupExempt = false ∧
    a.sender = b.sender ∧ signatureBytes P a = signatureBytes P b

/-- A message that passed twice was dated ahead of the clock the first time. -/
def AtMostOnce (L : InboxLog) : Prop :=
  L.passed.Pairwise fun later earlier =>
    Copies P later.2 earlier.2 → earlier.1 < later.2.timestamp

/-- What passed, as the guard sees it. -/
def history (L : InboxLog) : List Sighting :=
  (L.passed.filter (!·.2.msgType.dedupExempt)).map fun e =>
    ⟨e.2.sender, (signatureBytes P e.2).getD [], e.1⟩

structure Inv (L : InboxLog) : Prop where
  window : L.inbox.replayGuard.window = maxMessageAgeSecs
  remembers : L.inbox.replayGuard.Remembers L.clock (L.history P)
  once : L.AtMostOnce P

theorem inv_start {inbox : Inbox} (h : inbox.replayGuard.window = maxMessageAgeSecs)
    (clock : Rat) : (start inbox clock).Inv P :=
  ⟨h, ReplayGuard.remembers_nil _ clock, List.Pairwise.nil⟩

/-! ## One check -/

/-- The log after one message went through the checks. -/
def checked (L : InboxLog) (m : Envelope SignalType) (now : Rat) (trusted : String → Bool) :
    InboxLog where
  inbox := (L.inbox.check P C m now trusted).2
  clock := now
  passed := if (L.inbox.check P C m now trusted).1 then (now, m) :: L.passed else L.passed

variable {P C} {L : InboxLog} {m : Envelope SignalType} {now : Rat} {trusted : String → Bool}

theorem verified_spec (h : verifyInboundSignature P C m now = true) :
    ∃ sigBytes, signatureBytes P m = some sigBytes ∧ now - m.timestamp ≤ maxMessageAgeSecs := by
  unfold verifyInboundSignature at h
  split at h
  · next sigBytes pubBytes hsig _ =>
    refine ⟨sigBytes, hsig, ?_⟩
    split at h
    · exact absurd h Bool.false_eq_true.mp
    · split at h
      · exact absurd h Bool.false_eq_true.mp
      · exact Envelope.age_le_of_isFresh h
  · exact absurd h Bool.false_eq_true.mp

theorem history_cons_exempt (inbox : Inbox) (clock : Rat)
    (passed : List (Rat × Envelope SignalType)) (h : m.msgType.dedupExempt = true) :
    (InboxLog.mk inbox clock ((now, m) :: passed)).history P =
      (InboxLog.mk inbox clock passed).history P := by
  simp [history, h]

theorem history_cons (inbox : Inbox) (clock : Rat) (passed : List (Rat × Envelope SignalType))
    (h : m.msgType.dedupExempt = false) {sigBytes : Bytes}
    (hsig : signatureBytes P m = some sigBytes) :
    (InboxLog.mk inbox clock ((now, m) :: passed)).history P =
      ⟨m.sender, sigBytes, now⟩ :: (InboxLog.mk inbox clock passed).history P := by
  simp [history, h, hsig]

theorem Inv.pass_exempt (h : L.Inv P) (ht : L.clock ≤ now)
    (hexempt : m.msgType.dedupExempt = true) :
    (InboxLog.mk L.inbox now ((now, m) :: L.passed)).Inv P := by
  refine ⟨h.window, ?_, List.pairwise_cons.mpr ⟨?_, h.once⟩⟩
  · rw [history_cons_exempt _ _ _ hexempt]
    exact h.remembers.later ht
  · intro e _ hcopies
    exact absurd (hcopies.1.symm.trans hexempt) Bool.false_eq_true.mp

/-- What the guard lets through was let through before only if it is dated ahead
of that time. -/
theorem Inv.pass_new (h : L.Inv P) (ht : L.clock ≤ now)
    (hexempt : m.msgType.dedupExempt = false) {sigBytes : Bytes}
    (hsig : signatureBytes P m = some sigBytes)
    (hage : now - m.timestamp ≤ maxMessageAgeSecs)
    (hnew : (L.inbox.replayGuard.checkAndRecordAt m.sender sigBytes now).1 = true) :
    (InboxLog.mk { L.inbox with
        replayGuard := (L.inbox.replayGuard.checkAndRecordAt m.sender sigBytes now).2 }
      now ((now, m) :: L.passed)).Inv P := by
  refine ⟨by simpa using h.window, ?_, List.pairwise_cons.mpr ⟨?_, h.once⟩⟩
  · rw [history_cons _ _ _ hexempt hsig]
    exact h.remembers.accepted ht hnew
  · intro e he hcopies
    obtain ⟨-, hearlier, hsender, hsigs⟩ := hcopies
    have hmem : (⟨e.2.sender, (signatureBytes P e.2).getD [], e.1⟩ : Sighting) ∈ L.history P :=
      List.mem_map_of_mem (f := fun e : Rat × Envelope SignalType =>
        (⟨e.2.sender, (signatureBytes P e.2).getD [], e.1⟩ : Sighting))
        (List.mem_filter.mpr ⟨he, by simp [hearlier]⟩)
    have hbytes : (signatureBytes P e.2).getD [] = sigBytes := by
      rw [← hsigs, hsig]
      rfl
    have haged := h.remembers.aged ht hnew hmem hsender.symm hbytes
    rw [h.window] at haged
    linarith

theorem Inv.checked (h : L.Inv P) (ht : L.clock ≤ now) :
    (L.checked P C m now trusted).Inv P := by
  unfold InboxLog.checked Inbox.check inboundChecks
  by_cases hverify : verifyInboundSignature P C m now = true
  swap
  · simp only [hverify, Bool.not_false, if_true, Bool.false_eq_true, if_false]
    exact ⟨h.window, h.remembers.later ht, h.once⟩
  obtain ⟨sigBytes, hsig, hage⟩ := verified_spec hverify
  simp only [hverify, Bool.not_true, Bool.false_eq_true, if_false]
  by_cases hexempt : m.msgType.dedupExempt = true
  · simp only [hexempt, if_true, Bool.true_and]
    split
    · exact h.pass_exempt ht hexempt
    · exact ⟨h.window, h.remembers.later ht, h.once⟩
  · have hexempt' := Bool.eq_false_iff.mpr hexempt
    have hreplay : checkReplay P m L.inbox.replayGuard now =
        L.inbox.replayGuard.checkAndRecordAt m.sender sigBytes now := by
      simp [checkReplay, hsig]
    simp only [hexempt', Bool.false_eq_true, if_false, hreplay]
    by_cases hnew : (L.inbox.replayGuard.checkAndRecordAt m.sender sigBytes now).1 = true
    · split
      · exact h.pass_new ht hexempt' hsig hage hnew
      · exact ⟨by simpa using h.window, (h.remembers.accepted ht hnew).of_cons, h.once⟩
    · have hrefused := Bool.eq_false_iff.mpr hnew
      simp only [hrefused, Bool.false_and, Bool.false_eq_true, if_false]
      exact ⟨by simpa using h.window, h.remembers.refused ht hrefused, h.once⟩

/-! ## Runs -/

theorem receive_arrival (L : InboxLog) (a : Arrival) :
    L.receive P C (.arrival a) = L.checked P C a.msg a.now a.trusted ∨
    ∃ inner, L.receive P C (.arrival a) =
      (L.checked P C a.msg a.now a.trusted).checked P C inner a.now a.trusted := by
  unfold receive Inbox.handleInboundInner
  by_cases hpass : (L.inbox.check P C a.msg a.now a.trusted).1 = true
  swap
  · left
    simp [InboxLog.checked, hpass]
  simp only [hpass, Bool.not_true, Bool.false_eq_true, if_false]
  by_cases hplain : a.msg.msgType ≠ .encryptedSignal
  · left
    simp [InboxLog.checked, hpass, hplain]
  rw [if_neg hplain]
  cases a.inner with
  | none =>
    left
    simp [InboxLog.checked, hpass]
  | some inner =>
    by_cases hbad : inner.msgType = .encryptedSignal ∨ inner.sender ≠ a.msg.sender
    · left
      simp [InboxLog.checked, hpass, hbad]
    · right
      refine ⟨inner, ?_⟩
      simp only [if_neg hbad, InboxLog.checked, hpass, if_true]
      split <;> rfl

theorem Inv.receive (h : L.Inv P) {e : LinkEvent} (ht : L.clock ≤ e.now)
    (hidle : L.DropsIdle e) : (L.receive P C e).Inv P := by
  cases e with
  | arrival a =>
    have hfirst : (L.checked P C a.msg a.now a.trusted).Inv P := h.checked ht
    rcases receive_arrival L a (P := P) (C := C) with hr | ⟨inner, hr⟩
    · rw [hr]
      exact hfirst
    · rw [hr]
      exact hfirst.checked (le_refl a.now)
  | relabelled now current canonical => exact ⟨h.window, h.remembers.later ht, h.once⟩
  | quicDisconnected now peerId => exact ⟨h.window, h.remembers.forgetPeer ht hidle, h.once⟩
  | wsDisconnected now peerId => exact ⟨h.window, h.remembers.forgetPeer ht hidle, h.once⟩

variable (P C)

@[simp] theorem clock_receive (L : InboxLog) (e : LinkEvent) :
    (L.receive P C e).clock = e.now := by
  cases e <;> rfl

theorem along_clock {L : InboxLog} {es : List LinkEvent}
    (h : (L.clock :: es.map LinkEvent.now).Pairwise (· ≤ ·)) :
    Along (receive P C) (fun L e => L.clock ≤ e.now) L es := by
  induction es generalizing L with
  | nil => trivial
  | cons e es ih =>
    have he : L.clock ≤ e.now := (List.pairwise_cons.mp h).1 _ List.mem_cons_self
    refine ⟨he, ih ?_⟩
    rw [clock_receive]
    exact (List.pairwise_cons.mp h).2

/-- Over any events in order of time, from any state of the inbox: if no replay
window is dropped with an entry of the last five minutes in it, no message that
is not exempt and was not dated ahead of the clock passes its checks twice. -/
theorem passes_once (inbox : Inbox)
    (hwindow : inbox.replayGuard.window = Inbox.new.replayGuard.window) (clock : Rat)
    (es : List LinkEvent) (htime : (clock :: es.map LinkEvent.now).Pairwise (· ≤ ·))
    (hidle : Along (receive P C) DropsIdle (start inbox clock) es) :
    (run (receive P C) (start inbox clock) es).AtMostOnce P := by
  have hboth := (along_clock P C (L := start inbox clock) htime).and hidle
  have hstart : (start inbox clock).Inv P := by
    refine inv_start P (hwindow.trans ?_) clock
    rfl
  exact (hboth.run_inv (Inv P) hstart fun L e hi he => hi.receive he.1 he.2).once

end InboxLog

/-! ## A message and its return -/

/-- The room list of a supernode, dated 0. -/
def roomList : Envelope SignalType where
  msgType := .other "sfu_room_list"
  sender := onesId
  payload := .obj []
  timestamp := 0
  target := none
  signature := some twosSignature
  protocolVersion := protocolVersion
  timestampRaw := none

def roomListCodec : Codec SignalType where
  typeFromValue j := j.asStr?.map .other
  asWireStr _ := "sfu_room_list"
  asF64 j := j.asI64?.map fun n => (n : Rat)
  fromF64 _ := .float "0.0"

def roomListAt (now : Rat) : LinkEvent :=
  .arrival ⟨now, roomList, fun _ => false, none⟩

/-- The supernode's session ends a second after its room list came, and its
room list passes again. -/
theorem roomList_passes_after_disconnect :
    (0 :: [roomListAt 0, .wsDisconnected 1 onesId, roomListAt 2].map LinkEvent.now).Pairwise
        (· ≤ ·) ∧
    ¬ (run (InboxLog.receive .oneKey roomListCodec) (.start .new 0)
      [roomListAt 0, .wsDisconnected 1 onesId, roomListAt 2]).AtMostOnce .oneKey := by
  unfold InboxLog.AtMostOnce InboxLog.Copies
  decide +kernel

/-- The session ends when the room list is out of the window, and the room list
does not pass again. -/
theorem roomList_passes_once :
    (run (InboxLog.receive .oneKey roomListCodec) (.start .new 0)
      [roomListAt 0, .wsDisconnected 301 onesId, roomListAt 302]).AtMostOnce .oneKey := by
  refine InboxLog.passes_once .oneKey roomListCodec .new rfl 0 _ (by decide +kernel) ?_
  refine ⟨trivial, ?_, trivial, trivial⟩
  unfold InboxLog.DropsIdle
  decide +kernel

end ConquerD.Client
