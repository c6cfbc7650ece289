import ConquerD.Lib.Run
import ConquerD.Supernode.Crypto
import Mathlib.Algebra.Order.Ring.Rat
import Mathlib.Data.List.Nodup
import Mathlib.Data.String.Basic

/-!
# Supernode: hole punching

A peer that wants a direct path to another registers for it, and when both have
registered the supernode tells each the endpoint of the other. Registrations
wait in a table by the pair of peers; one that is older than half a minute is
dropped, but only when a later call leaves its own pair waiting.

Beside the table a ledger keeps the registrations that no answer has used, each
with the call it came from and its time. The table never holds more than the
ledger, so that what an answer is made of is known.
-/

namespace ConquerD.Supernode

open Lib.Run

/-! ## Registration -/

/-- A pending hole punch that waits for both peers. -/
structure PunchRegistration where
  registeredAt : Rat
  endpoints : String → Option String

abbrev PairKey : Type := String × String

/-- The pending registrations by the pair of peers, in order. -/
abbrev PendingPunches : Type := PairKey → Option PunchRegistration

/-- What a peer is told. -/
structure PunchReady where
  recipient : String
  peerId : String
  peerEndpoint : String
  yourEndpoint : String
  punchAt : Rat
  verified : Bool
  deriving DecidableEq, Repr

def sendPunchReady (now : Rat) (peerA peerB epA epB : String) (verified : Bool) :
    List PunchReady :=
  [{ recipient := peerA, peerId := peerB, peerEndpoint := epB, yourEndpoint := epA,
     punchAt := now + 1 / 2, verified := verified },
    { recipient := peerB, peerId := peerA, peerEndpoint := epA, yourEndpoint := epB,
      punchAt := now + 1 / 2, verified := verified }]

/-- A call, and what it finds: the peers that are trusted, and the address the
relay sees of the sender. -/
structure PunchCall where
  sender : String
  targetPeer : String
  senderEndpoint : String
  now : Rat
  trusted : String → Bool
  remoteAddr : Option String

namespace PunchCall

variable (c : PunchCall)

def senderId : String := normalizePublicId c.sender

def targetId : String := normalizePublicId c.targetPeer

/-- The canonical pair. -/
def pairKey : PairKey :=
  if c.senderId < c.targetId then (c.senderId, c.targetId) else (c.targetId, c.senderId)

/-- What is measured goes before what is claimed. -/
def effectiveEndpoint : String :=
  c.remoteAddr.getD c.senderEndpoint

/-- Both peers are trusted. -/
def admitted : Bool :=
  c.trusted c.senderId && c.trusted c.targetId

end PunchCall

def registered (punches : PendingPunches) (c : PunchCall) : PunchRegistration :=
  let entry := (punches c.pairKey).getD ⟨c.now, fun _ => none⟩
  { entry with endpoints := Function.update entry.endpoints c.senderId (some c.effectiveEndpoint) }

def handlePunchRegister (punches : PendingPunches) (c : PunchCall) :
    PendingPunches × List PunchReady :=
  if c.admitted then
    let entry := registered punches c
    let key := c.pairKey
    if (entry.endpoints c.senderId).isSome ∧ (entry.endpoints c.targetId).isSome then
      (Function.update punches key none,
        sendPunchReady c.now key.1 key.2 ((entry.endpoints key.1).getD "")
          ((entry.endpoints key.2).getD "") true)
    else
      (fun k => (Function.update punches key (some entry) k).filter fun info =>
          !decide (30 < c.now - info.registeredAt), [])
  else (punches, [])

/-! ## The ledger -/

/-- A registration: the call it came from, its time and its endpoint. -/
structure Booking where
  call : Nat
  time : Rat
  endpoint : String
  deriving DecidableEq

/-- The registrations that no answer has used, by pair and peer. -/
abbrev Ledger : Type := PairKey → String → Option Booking

structure PunchState where
  punches : PendingPunches
  ledger : Ledger
  calls : Nat

namespace PunchState

def start : PunchState := ⟨fun _ => none, fun _ _ => none, 0⟩

def booking (s : PunchState) (c : PunchCall) : Booking :=
  ⟨s.calls, c.now, c.effectiveEndpoint⟩

def answer (s : PunchState) (c : PunchCall) : List PunchReady :=
  (handlePunchRegister s.punches c).2

def step (s : PunchState) (c : PunchCall) : PunchState where
  punches := (handlePunchRegister s.punches c).1
  ledger :=
    if c.admitted then
      Function.update s.ledger c.pairKey
        (if s.answer c = [] then
          Function.update (s.ledger c.pairKey) c.senderId (some (s.booking c))
        else fun _ => none)
    else s.ledger
  calls := s.calls + 1

/-- The registration of the other side that no answer has used. -/
def counterpart (s : PunchState) (c : PunchCall) : Option Booking :=
  s.ledger c.pairKey c.targetId

/-- The calls an answer takes its two registrations from. -/
def used (s : PunchState) (c : PunchCall) : List Nat :=
  if s.answer c = [] then []
  else s.calls :: if c.senderId = c.targetId then [] else ((s.counterpart c).map Booking.call).toList

/-- Within half a minute, one way or the other. -/
def Within (now time : Rat) : Prop :=
  now - time ≤ 30 ∧ time - now ≤ 30

/-- The call finds its own pair complete: the table holds an endpoint of the
other side, or the other side is the sender. -/
def Waiting (s : PunchState) (c : PunchCall) : Prop :=
  c.senderId = c.targetId ∨ ∃ entry, s.punches c.pairKey = some entry ∧
    (entry.endpoints c.targetId).isSome = true

/-- What the two peers are told of a call and the registration it meets. -/
def told (c : PunchCall) (other : Booking) : List PunchReady :=
  if c.senderId < c.targetId then
    sendPunchReady c.now c.senderId c.targetId c.effectiveEndpoint other.endpoint true
  else sendPunchReady c.now c.targetId c.senderId other.endpoint c.effectiveEndpoint true

/-- A call that is answered completes a pair of two peers that have registered
within half a minute, and both are told the same two endpoints. -/
def Law (s : PunchState) (c : PunchCall) : Prop :=
  s.answer c ≠ [] → c.senderId ≠ c.targetId ∧
    ∃ other, s.counterpart c = some other ∧ Within c.now other.time ∧ s.answer c = told c other

/-- A call that finds its pair complete is not for the sender itself, and what
it finds is not older than half a minute. -/
def Sound (s : PunchState) (c : PunchCall) : Prop :=
  c.admitted = true → s.Waiting c → c.senderId ≠ c.targetId ∧
    ∀ other, s.counterpart c = some other → Within c.now other.time

/-! ## The table and the ledger -/

variable {s : PunchState} {c : PunchCall}

theorem endpoints_registered (punches : PendingPunches) (p : String) :
    (registered punches c).endpoints p =
      if p = c.senderId then some c.effectiveEndpoint
      else ((punches c.pairKey).getD ⟨c.now, fun _ => none⟩).endpoints p := by
  exact Function.update_apply ..

theorem isSome_endpoints_targetId_iff :
    ((registered s.punches c).endpoints c.targetId).isSome = true ↔ s.Waiting c := by
  rw [endpoints_registered, Waiting]
  by_cases hself : c.targetId = c.senderId
  · simp [hself]
  · rw [if_neg hself]
    cases hentry : s.punches c.pairKey with
    | none => simp [Ne.symm hself]
    | some entry => simp [Ne.symm hself]

theorem handlePunchRegister_of_not_admitted (h : ¬ c.admitted = true) :
    handlePunchRegister s.punches c = (s.punches, []) := by
  rw [handlePunchRegister, if_neg h]

theorem handlePunchRegister_of_waiting (h : c.admitted = true) (hw : s.Waiting c) :
    handlePunchRegister s.punches c =
      (Function.update s.punches c.pairKey none,
        sendPunchReady c.now c.pairKey.1 c.pairKey.2
          (((registered s.punches c).endpoints c.pairKey.1).getD "")
          (((registered s.punches c).endpoints c.pairKey.2).getD "") true) := by
  have hsender : ((registered s.punches c).endpoints c.senderId).isSome = true := by
    rw [endpoints_registered, if_pos rfl]
    rfl
  rw [handlePunchRegister, if_pos h]
  exact if_pos ⟨hsender, isSome_endpoints_targetId_iff.mpr hw⟩

theorem handlePunchRegister_of_not_waiting (h : c.admitted = true) (hw : ¬ s.Waiting c) :
    handlePunchRegister s.punches c =
      (fun k => (Function.update s.punches c.pairKey (some (registered s.punches c)) k).filter
        fun info => !decide (30 < c.now - info.registeredAt), []) := by
  rw [handlePunchRegister, if_pos h]
  exact if_neg fun hboth => hw (isSome_endpoints_targetId_iff.mp hboth.2)

theorem answer_ne_nil_iff : s.answer c ≠ [] ↔ c.admitted = true ∧ s.Waiting c := by
  rw [answer]
  by_cases h : c.admitted = true
  · by_cases hw : s.Waiting c
    · rw [handlePunchRegister_of_waiting h hw]
      simp [sendPunchReady, h, hw]
    · rw [handlePunchRegister_of_not_waiting h hw]
      simp [hw]
  · rw [handlePunchRegister_of_not_admitted h]
    simp [h]

theorem answer_of_waiting (h : c.admitted = true) (hw : s.Waiting c)
    (hne : c.senderId ≠ c.targetId) {other : Booking}
    (hother : ∃ entry, s.punches c.pairKey = some entry ∧
      entry.endpoints c.targetId = some other.endpoint) :
    s.answer c = told c other := by
  obtain ⟨entry, hentry, htarget⟩ := hother
  have hown : ((registered s.punches c).endpoints c.senderId).getD "" = c.effectiveEndpoint := by
    rw [endpoints_registered, if_pos rfl]
    rfl
  have htheirs : ((registered s.punches c).endpoints c.targetId).getD "" = other.endpoint := by
    rw [endpoints_registered, if_neg (Ne.symm hne), hentry, Option.getD_some, htarget]
    rfl
  rw [answer, handlePunchRegister_of_waiting h hw, told, PunchCall.pairKey]
  split <;> simp only [hown, htheirs]

/-! What a step does, by what the call finds. -/

theorem step_punches : (s.step c).punches = (handlePunchRegister s.punches c).1 := rfl

theorem step_ledger : (s.step c).ledger =
    if c.admitted then
      Function.update s.ledger c.pairKey
        (if s.answer c = [] then
          Function.update (s.ledger c.pairKey) c.senderId (some (s.booking c))
        else fun _ => none)
    else s.ledger := rfl

theorem step_calls : (s.step c).calls = s.calls + 1 := rfl

theorem step_of_not_admitted (h : ¬ c.admitted = true) :
    (s.step c).punches = s.punches ∧ (s.step c).ledger = s.ledger := by
  constructor
  · rw [step_punches, handlePunchRegister_of_not_admitted h]
  · rw [step_ledger, if_neg h]

theorem step_of_waiting (h : c.admitted = true) (hw : s.Waiting c) :
    (s.step c).punches = Function.update s.punches c.pairKey none ∧
      (s.step c).ledger = Function.update s.ledger c.pairKey fun _ => none := by
  have hanswer : ¬ s.answer c = [] := answer_ne_nil_iff.mpr ⟨h, hw⟩
  constructor
  · rw [step_punches, handlePunchRegister_of_waiting h hw]
  · rw [step_ledger, if_pos h, if_neg hanswer]

theorem step_of_not_waiting (h : c.admitted = true) (hw : ¬ s.Waiting c) :
    (s.step c).punches = (fun k =>
        (Function.update s.punches c.pairKey (some (registered s.punches c)) k).filter
          fun info => !decide (30 < c.now - info.registeredAt)) ∧
      (s.step c).ledger = Function.update s.ledger c.pairKey
        (Function.update (s.ledger c.pairKey) c.senderId (some (s.booking c))) := by
  have hanswer : s.answer c = [] := by
    by_contra hne
    exact hw (answer_ne_nil_iff.mp hne).2
  constructor
  · rw [step_punches, handlePunchRegister_of_not_waiting h hw]
  · rw [step_ledger, if_pos h, if_pos hanswer]

/-- The table holds no endpoint that is not in the ledger. -/
def Filed (s : PunchState) : Prop :=
  ∀ k entry p ep, s.punches k = some entry → entry.endpoints p = some ep →
    ∃ b, s.ledger k p = some b ∧ b.endpoint = ep

theorem filed_start : start.Filed := by
  intro k entry p ep hentry
  cases hentry

theorem Filed.step (h : s.Filed) (c : PunchCall) : (s.step c).Filed := by
  intro k entry p ep hentry hep
  by_cases hadm : c.admitted = true
  · by_cases hw : s.Waiting c
    · obtain ⟨hpunches, hledger⟩ := step_of_waiting hadm hw
      rw [hpunches] at hentry
      rw [hledger]
      by_cases hk : k = c.pairKey
      · rw [hk, Function.update_self] at hentry
        cases hentry
      · rw [Function.update_of_ne hk] at hentry ⊢
        exact h k entry p ep hentry hep
    · obtain ⟨hpunches, hledger⟩ := step_of_not_waiting hadm hw
      rw [hpunches] at hentry
      rw [hledger]
      obtain ⟨hentry, -⟩ := Option.filter_eq_some_iff.mp hentry
      by_cases hk : k = c.pairKey
      · rw [hk, Function.update_self] at hentry
        rw [hk, Function.update_self]
        rw [← Option.some.inj hentry, endpoints_registered] at hep
        by_cases hp : p = c.senderId
        · rw [if_pos hp] at hep
          rw [hp, Function.update_self]
          exact ⟨s.booking c, rfl, Option.some.inj hep⟩
        · rw [if_neg hp] at hep
          rw [Function.update_of_ne hp]
          cases hold : s.punches c.pairKey with
          | none =>
            rw [hold] at hep
            cases hep
          | some entry =>
            rw [hold] at hep
            exact h _ entry p ep hold hep
      · rw [Function.update_of_ne hk] at hentry ⊢
        exact h k entry p ep hentry hep
  · obtain ⟨hpunches, hledger⟩ := step_of_not_admitted (s := s) hadm
    rw [hpunches] at hentry
    rw [hledger]
    exact h k entry p ep hentry hep

theorem Filed.law_iff (h : s.Filed) (c : PunchCall) : s.Law c ↔ s.Sound c := by
  rw [Law, Sound, answer_ne_nil_iff]
  constructor
  · intro hlaw hadm hw
    obtain ⟨hne, other, hother, hwithin, -⟩ := hlaw ⟨hadm, hw⟩
    refine ⟨hne, ?_⟩
    intro other' hother'
    rw [hother] at hother'
    exact Option.some.inj hother' ▸ hwithin
  · rintro hsound ⟨hadm, hw⟩
    obtain ⟨hne, hrecent⟩ := hsound hadm hw
    obtain ⟨entry, hentry, hsome⟩ := hw.resolve_left hne
    obtain ⟨ep, hep⟩ := Option.isSome_iff_exists.mp hsome
    obtain ⟨other, hother, rfl⟩ := h _ entry _ ep hentry hep
    exact ⟨hne, other, hother, hrecent other hother,
      answer_of_waiting hadm hw hne ⟨entry, hentry, hep⟩⟩

/-! ## Every registration is used once -/

/-- The calls that answers along a run are made of. -/
def usedAlong : PunchState → List PunchCall → List Nat
  | _, [] => []
  | s, c :: calls => s.used c ++ usedAlong (s.step c) calls

/-- The ledger's bookings are of different calls, all before the present one. -/
structure Booked (s : PunchState) : Prop where
  before : ∀ k p b, s.ledger k p = some b → b.call < s.calls
  distinct : ∀ k p b k' p' b', s.ledger k p = some b → s.ledger k' p' = some b' →
    b.call = b'.call → k = k' ∧ p = p'

theorem booked_start : start.Booked := by
  constructor
  · intro k p b hb
    cases hb
  · intro k p b k' p' b' hb
    cases hb

theorem ledger_step {k : PairKey} {p : String} {b : Booking} (h : (s.step c).ledger k p = some b) :
    (s.ledger k p = some b ∧ (s.answer c ≠ [] → k ≠ c.pairKey)) ∨
      (k = c.pairKey ∧ p = c.senderId ∧ b = s.booking c ∧ s.answer c = []) := by
  by_cases hadm : c.admitted = true
  · by_cases hw : s.Waiting c
    · rw [(step_of_waiting hadm hw).2] at h
      by_cases hk : k = c.pairKey
      · rw [hk, Function.update_self] at h
        cases h
      · rw [Function.update_of_ne hk] at h
        exact .inl ⟨h, fun _ => hk⟩
    · have hanswer : s.answer c = [] := by
        by_contra hne
        exact hw (answer_ne_nil_iff.mp hne).2
      rw [(step_of_not_waiting hadm hw).2] at h
      by_cases hk : k = c.pairKey
      · rw [hk, Function.update_self] at h
        by_cases hp : p = c.senderId
        · rw [hp, Function.update_self] at h
          exact .inr ⟨hk, hp, (Option.some.inj h).symm, hanswer⟩
        · rw [Function.update_of_ne hp] at h
          exact .inl ⟨hk ▸ h, fun hne => absurd hanswer hne⟩
      · rw [Function.update_of_ne hk] at h
        exact .inl ⟨h, fun _ => hk⟩
  · rw [(step_of_not_admitted hadm).2] at h
    exact .inl ⟨h, fun hne => absurd (answer_ne_nil_iff.mp hne).1 hadm⟩

theorem Booked.step (h : s.Booked) (c : PunchCall) : (s.step c).Booked := by
  constructor
  · intro k p b hb
    rw [step_calls]
    rcases ledger_step hb with ⟨hold, -⟩ | ⟨-, -, hnew, -⟩
    · exact Nat.lt_succ_of_lt (h.before k p b hold)
    · rw [hnew]
      exact Nat.lt_succ_self _
  · intro k p b k' p' b' hb hb' hcall
    rcases ledger_step hb with ⟨hold, -⟩ | ⟨hk, hp, hnew, -⟩ <;>
      rcases ledger_step hb' with ⟨hold', -⟩ | ⟨hk', hp', hnew', -⟩
    · exact h.distinct k p b k' p' b' hold hold' hcall
    · rw [hnew'] at hcall
      exact absurd hcall (Nat.ne_of_lt (h.before k p b hold))
    · rw [hnew] at hcall
      exact absurd hcall.symm (Nat.ne_of_lt (h.before k' p' b' hold'))
    · exact ⟨hk.trans hk'.symm, hp.trans hp'.symm⟩

theorem mem_usedAlong {n : Nat} {calls : List PunchCall} (h : n ∈ s.usedAlong calls) :
    s.calls ≤ n ∨ ∃ k p b, s.ledger k p = some b ∧ b.call = n := by
  induction calls generalizing s with
  | nil => cases h
  | cons c calls ih =>
    rw [usedAlong, List.mem_append] at h
    rcases h with h | h
    · unfold used at h
      split at h
      · cases h
      · rcases List.mem_cons.mp h with rfl | h
        · exact .inl (Nat.le_refl _)
        · split at h
          · cases h
          · obtain ⟨b, hb, rfl⟩ := Option.map_eq_some_iff.mp (Option.mem_toList.mp h)
            exact .inr ⟨_, _, b, hb, rfl⟩
    · rcases ih h with hlater | ⟨k, p, b, hb, rfl⟩
      · exact .inl (Nat.le_trans (Nat.le_succ _) hlater)
      · rcases ledger_step hb with ⟨hold, -⟩ | ⟨-, -, rfl, -⟩
        · exact .inr ⟨k, p, b, hold, rfl⟩
        · exact .inl (Nat.le_refl _)

theorem Booked.nodup_usedAlong (h : s.Booked) (calls : List PunchCall) :
    (s.usedAlong calls).Nodup := by
  induction calls generalizing s with
  | nil => exact .nil
  | cons c calls ih =>
    rw [usedAlong, List.nodup_append]
    refine ⟨?_, ih (h.step c), ?_⟩
    · unfold used
      split
      · exact .nil
      · split
        · exact List.nodup_singleton _
        · cases hother : s.counterpart c with
          | none => exact List.nodup_singleton _
          | some other =>
            have hlt := h.before _ _ other hother
            simp [Nat.ne_of_gt hlt]
    · rintro n hn m hm rfl
      unfold used at hn
      split at hn
      · cases hn
      · next hanswer =>
        -- what the answer has used is in the ledger no more
        rcases mem_usedAlong hm with hlater | ⟨k, p, b, hb, rfl⟩
        · have hnow : s.calls + 1 ≤ n := hlater
          rcases List.mem_cons.mp hn with rfl | hn
          · omega
          · split at hn
            · cases hn
            · obtain ⟨b, hb, rfl⟩ := Option.map_eq_some_iff.mp (Option.mem_toList.mp hn)
              have hlt := h.before _ _ b hb
              omega
        · rcases ledger_step hb with ⟨hold, hk⟩ | ⟨-, -, -, hnil⟩
          · have hlt := h.before _ _ b hold
            rcases List.mem_cons.mp hn with heq | hn
            · omega
            · split at hn
              · cases hn
              · obtain ⟨b', hb', hcall⟩ := Option.map_eq_some_iff.mp (Option.mem_toList.mp hn)
                exact hk hanswer (h.distinct _ _ b _ _ b' hold hb' hcall.symm).1
          · exact hanswer hnil

/-! ## Who comes first -/

/-- An answer without its time. -/
def untimed (m : PunchReady) : PunchReady := { m with punchAt := 0 }

theorem not_waiting_of_none (hne : c.senderId ≠ c.targetId)
    (hempty : s.punches c.pairKey = none) : ¬ s.Waiting c := by
  rintro (hself | ⟨entry, hentry, -⟩)
  · exact hne hself
  · rw [hempty] at hentry
    cases hentry

theorem answer_second {d : PunchCall} (hc : c.admitted = true) (hd : d.admitted = true)
    (htarget : d.targetId = c.senderId) (hkey : d.pairKey = c.pairKey)
    (hne : c.senderId ≠ c.targetId) (hne' : d.senderId ≠ d.targetId)
    (hempty : s.punches c.pairKey = none) :
    s.answer c = [] ∧ (s.step c).answer d = told d (s.booking c) ∧ (s.step c).answer d ≠ [] := by
  have hw : ¬ s.Waiting c := not_waiting_of_none hne hempty
  have hfirst : s.answer c = [] := by
    by_contra hsome
    exact hw (answer_ne_nil_iff.mp hsome).2
  have hentry : (s.step c).punches d.pairKey = some (registered s.punches c) := by
    have hage : (registered s.punches c).registeredAt = c.now := by
      rw [registered, hempty]
      rfl
    rw [(step_of_not_waiting hc hw).1, hkey]
    dsimp only
    rw [Function.update_self, Option.filter_some, hage, sub_self]
    exact if_pos (by decide)
  have hother : (registered s.punches c).endpoints d.targetId = some (s.booking c).endpoint := by
    rw [endpoints_registered, if_pos htarget]
    rfl
  have hwaits : (s.step c).Waiting d := .inr ⟨_, hentry, by rw [hother]; rfl⟩
  exact ⟨hfirst, answer_of_waiting hd hwaits hne' ⟨_, hentry, hother⟩,
    answer_ne_nil_iff.mpr ⟨hd, hwaits⟩⟩

/-- Two peers that register for each other are told the same in either order. -/
theorem answers_in_either_order {d : PunchCall} (hc : c.admitted = true) (hd : d.admitted = true)
    (hsender : d.senderId = c.targetId) (htarget : d.targetId = c.senderId)
    (hne : c.senderId ≠ c.targetId) (hempty : s.punches c.pairKey = none) :
    s.answer c = [] ∧ s.answer d = [] ∧ (s.step c).answer d ≠ [] ∧
      ((s.step c).answer d).map untimed = ((s.step d).answer c).map untimed := by
  have hkey : d.pairKey = c.pairKey := by
    rw [PunchCall.pairKey, PunchCall.pairKey, hsender, htarget]
    rcases lt_trichotomy c.senderId c.targetId with h | h | h
    · rw [if_pos h, if_neg (lt_asymm h)]
    · exact absurd h hne
    · rw [if_neg (lt_asymm h), if_pos h]
  have hne' : d.senderId ≠ d.targetId := by
    rw [hsender, htarget]
    exact hne.symm
  obtain ⟨hfirst, htold, hsome⟩ := answer_second hc hd htarget hkey hne hne' hempty
  have hempty' : s.punches d.pairKey = none := by rw [hkey, hempty]
  obtain ⟨hfirst', htold', -⟩ := answer_second hd hc hsender.symm hkey.symm hne' hne hempty'
  refine ⟨hfirst, hfirst', hsome, ?_⟩
  rw [htold, htold', told, told, hsender, htarget]
  rcases lt_trichotomy c.senderId c.targetId with h | h | h
  · rw [if_pos h, if_neg (lt_asymm h)]
    rfl
  · exact absurd h hne
  · rw [if_neg (lt_asymm h), if_pos h]
    rfl

/-- Hole punching, exactly: along a run every answer pairs two peers that have
registered within half a minute, and tells both the same endpoints, as long as
every call that finds its pair complete is for another peer and meets a
registration no older than that. No registration is used twice, and which of
two comes first does not matter. -/
theorem punch_pairs_iff (calls : List PunchCall) (s : PunchState) (c d : PunchCall) :
    (Along step Law start calls ↔ Along step Sound start calls) ∧
      (start.usedAlong calls).Nodup ∧
      (c.admitted = true → d.admitted = true →
        d.senderId = c.targetId → d.targetId = c.senderId → c.senderId ≠ c.targetId →
        s.punches c.pairKey = none →
        s.answer c = [] ∧ s.answer d = [] ∧ (s.step c).answer d ≠ [] ∧
          ((s.step c).answer d).map untimed = ((s.step d).answer c).map untimed) := by
  refine ⟨?_, booked_start.nodup_usedAlong calls, ?_⟩
  · exact along_congr_inv Filed filed_start (fun _ c h => h.step c) fun _ c h => h.law_iff c
  · intro hc hd hsender htarget hne hempty
    exact answers_in_either_order hc hd hsender htarget hne hempty

/-- A registration of the example that follows. -/
def registration (sender targetPeer : String) (now : Rat) : PunchCall where
  sender := sender
  targetPeer := targetPeer
  senderEndpoint := sender ++ ":9325"
  now := now
  trusted := fun _ => true
  remoteAddr := none

/-- Two registrations an hour apart are paired, as nothing in between purged the
first; and a peer that names itself is paired with itself. -/
theorem stale_and_self_paired :
    (start.step (registration "alice" "bob" 0)).answer (registration "bob" "alice" 3600) =
        sendPunchReady 3600 "alice" "bob" "alice:9325" "bob:9325" true ∧
      start.answer (registration "alice" "alice" 0) =
        sendPunchReady 0 "alice" "alice" "alice:9325" "alice:9325" true := by
  decide +kernel

end PunchState

end ConquerD.Supernode
