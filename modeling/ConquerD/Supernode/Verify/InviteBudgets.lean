import ConquerD.Supernode.SfuCalls
import ConquerD.Supernode.Verify.Membership

/-!
# Budgets of invite tokens

A token minted for a number of uses admits as often and no more, whatever else is
asked of the rooms, as long as nobody re-registers it. Those in a private room are
its creator or allowed in. Only the empty id is neither: it counts as the creator
of a room that has none, until the room adopts one.
-/

namespace ConquerD.Supernode

open Lib.Run Wire
open Std (ExtTreeMap ExtTreeSet)

inductive TokenCall where
  | room (call : SfuCall)
  | generateInviteToken (roomId createdBy : String) (maxUses : Nat) (nonce : String)
  | reregisterInviteToken (roomId token createdBy : String)

namespace SFURoomManager

/-- Mints a token for any number of uses. -/
def mint (mgr : SFURoomManager) (roomId createdBy : String) (maxUses : Nat) (nonce : String) :
    SFURoomManager :=
  match mgr.getRoom roomId with
  | none => mgr
  | some room => mgr.setRoom roomId (room.generateInviteToken createdBy maxUses nonce).1

def tokenStep (P : Platform) (mgr : SFURoomManager) : TokenCall → SFURoomManager
  | .room call => mgr.step P call
  | .generateInviteToken roomId createdBy maxUses nonce =>
    mgr.mint roomId createdBy maxUses nonce
  | .reregisterInviteToken roomId token createdBy =>
    (mgr.reregisterInviteToken roomId token createdBy).1

end SFURoomManager

open SFURoomManager (tokenStep)

namespace TokenCall

def budget (roomId token : String) : TokenCall → Option Nat
  | .generateInviteToken r _ maxUses nonce =>
    if r = roomId ∧ nonce = token then some maxUses else none
  | .room (.generateInviteTokenChecked r _ nonce) =>
    if r = roomId ∧ nonce = token then some 1 else none
  | _ => none

def redeems (mgr : SFURoomManager) (roomId token : String) : TokenCall → Bool
  | .room (.validateRoomInvite r t peerId) =>
    decide (r = roomId ∧ t = token) && (mgr.validateRoomInvite r t peerId).2
  | _ => false

end TokenCall

/-- How often the token of the room is redeemed in a run. -/
def redemptions (P : Platform) (roomId token : String) : SFURoomManager → List TokenCall → Nat
  | _, [] => 0
  | mgr, c :: calls =>
    (c.redeems mgr roomId token).toNat + redemptions P roomId token (mgr.tokenStep P c) calls

/-- A redemption allows the peer in, and one that fails changes nothing. -/
def RedemptionExact (mgr : SFURoomManager) : TokenCall → Prop
  | .room (.validateRoomInvite roomId token peerId) =>
    if (mgr.validateRoomInvite roomId token peerId).2 then
      ∃ room tokens, mgr.getRoom roomId = some room ∧
        (mgr.validateRoomInvite roomId token peerId).1 = mgr.setRoom roomId { room with
          inviteTokens := tokens
          allowed := room.allowed.insert (normalizePublicId peerId) }
    else (mgr.validateRoomInvite roomId token peerId).1 = mgr
  | _ => True

/-- In a private room there are only its creator and those allowed in, and perhaps
the empty id. -/
def SFURoom.Closed (room : SFURoom) : Prop :=
  room.roomType = .privateRoom →
    ∀ p, (p ∈ room.participants ∨ p ∈ room.subscribers) →
      room.creatorId = p ∨ p ∈ room.allowed ∨ p = ""

/-! ## What room operations do to the tokens -/

namespace SFURoom

variable {room : SFURoom} {p : String} {now : Rat}

@[simp] theorem addParticipant_inviteTokens :
    (room.addParticipant p).1.inviteTokens = room.inviteTokens := by
  unfold addParticipant
  simp only
  split
  · rfl
  · split <;> rfl

@[simp] theorem removeParticipant_inviteTokens :
    (room.removeParticipant p now).inviteTokens = room.inviteTokens := by
  unfold removeParticipant
  simp only
  split
  · simp [forgetSpeaker]
  · rfl

@[simp] theorem removePeerEntirely_inviteTokens :
    (room.removePeerEntirely p now).1.inviteTokens = room.inviteTokens := by
  unfold removePeerEntirely
  simp only
  cases room.participants.contains (normalizePublicId p) with
  | true => simp [forgetSpeaker]
  | false => cases room.subscribers.contains (normalizePublicId p) <;> simp

@[simp] theorem subscribe_inviteTokens : (room.subscribe p).inviteTokens = room.inviteTokens := by
  unfold subscribe
  simp only
  split <;> rfl

@[simp] theorem unsubscribe_inviteTokens :
    (room.unsubscribe p now).inviteTokens = room.inviteTokens := by
  unfold unsubscribe
  simp only
  split
  · simp
  · rfl

@[simp] theorem noteAudio_inviteTokens {decay : Rat → Rat} {sender : String} :
    (room.noteAudioShouldForward decay sender now).1.inviteTokens = room.inviteTokens := by
  obtain ⟨_, _, heq⟩ := room.noteAudio_fields decay sender now
  rw [heq]

/-- The token has no more than `k` uses left, and is not an unlimited one. -/
def Holds (room : SFURoom) (token : String) (k : Nat) : Prop :=
  ∀ it, room.inviteTokens[token]? = some it → 0 < it.maxUses ∧ it.maxUses - it.uses ≤ k

variable {token token' : String} {k n : Nat}

theorem Holds.of_eq {room' : SFURoom} (h : room.Holds token k)
    (heq : room'.inviteTokens = room.inviteTokens) : room'.Holds token k := by
  intro it hit
  exact h it (heq ▸ hit)

theorem Holds.mono (h : room.Holds token k) (hk : k ≤ n) : room.Holds token n := by
  intro it hit
  exact ⟨(h it hit).1, (h it hit).2.trans hk⟩

/-- A redemption fails and leaves the room, or it allows the peer in and touches
its own token only. -/
theorem consume_cases (room : SFURoom) (token p : String) :
    room.validateAndConsumeToken token p = (room, false) ∨
      ∃ tokens, room.validateAndConsumeToken token p =
          ({ room with
              inviteTokens := tokens
              allowed := room.allowed.insert (normalizePublicId p) }, true) ∧
        ∀ t, token ≠ t → tokens[t]? = room.inviteTokens[t]? := by
  unfold validateAndConsumeToken
  split
  · exact .inl rfl
  · next it _ =>
    split
    · exact .inl rfl
    · generalize (if it.maxUses > 0 then { it with uses := it.uses + 1 } else it) = it'
      refine .inr ?_
      simp only
      split
      · refine ⟨_, rfl, ?_⟩
        intro t hne
        simp [ExtTreeMap.getElem?_erase, ExtTreeMap.getElem?_insert, hne]
      · refine ⟨_, rfl, ?_⟩
        intro t hne
        simp [ExtTreeMap.getElem?_insert, hne]

theorem Holds.consume_of_ne (h : room.Holds token k) (hne : token' ≠ token) :
    (room.validateAndConsumeToken token' p).1.Holds token k := by
  rcases room.consume_cases token' p with hfail | ⟨tokens, hok, hothers⟩
  · rw [hfail]
    exact h
  · rw [hok]
    intro it hit
    exact h it (hothers token hne ▸ hit)

/-- What redeeming a token does to it: a success takes one use off, and the last
use takes the token away. -/
theorem Holds.consume (h : room.Holds token k) :
    (room.validateAndConsumeToken token p).2.toNat ≤ k ∧
      (room.validateAndConsumeToken token p).1.Holds token
        (k - (room.validateAndConsumeToken token p).2.toNat) := by
  unfold validateAndConsumeToken
  cases htok : room.inviteTokens[token]? with
  | none => exact ⟨Nat.zero_le k, h⟩
  | some it =>
    obtain ⟨hlimited, hleft⟩ := h it htok
    by_cases hspent : it.uses ≥ it.maxUses
    · simp only [hlimited, hspent, and_self, if_true]
      exact ⟨Nat.zero_le k, h⟩
    · have hone : 1 ≤ k := by omega
      simp only [hlimited, hspent, and_false, if_false, if_true, true_and]
      by_cases hlast : it.uses + 1 ≥ it.maxUses
      · simp only [hlast, if_true, Bool.toNat_true]
        refine ⟨hone, ?_⟩
        intro it' hit'
        simp at hit'
      · simp only [hlast, if_false, Bool.toNat_true]
        refine ⟨hone, ?_⟩
        intro it' hit'
        obtain rfl : { it with uses := it.uses + 1 } = it' := by simpa using hit'
        exact ⟨hlimited, by simp only; omega⟩

theorem Holds.generate (h : room.Holds token k) (createdBy nonce : String)
    (hn : nonce = token → 0 < n) :
    (room.generateInviteToken createdBy n nonce).1.Holds token
      (k + if nonce = token then n else 0) := by
  intro it hit
  simp only [generateInviteToken, ExtTreeMap.getElem?_insert, compare_eq_iff_eq] at hit
  split at hit
  · next heq =>
    cases hit
    rw [if_pos heq]
    exact ⟨hn heq, by simp⟩
  · obtain ⟨hlimited, hleft⟩ := h it hit
    exact ⟨hlimited, by omega⟩

end SFURoom

/-! ## The tokens of a room in the table -/

/-- The room, if it is there, has a token with no more than `k` uses left. -/
def Held (roomId token : String) (k : Nat) (mgr : SFURoomManager) : Prop :=
  AllRooms (fun key room => key = roomId → room.Holds token k) mgr

namespace Held

variable {P : Platform} {mgr : SFURoomManager} {r token : String} {k n : Nat} {room : SFURoom}

theorem setRoom {r' : String} (h : Held r token k mgr) (hk : k ≤ n)
    (hroom : r' = r → room.Holds token n) : Held r token n (mgr.setRoom r' room) := by
  have hn : Held r token n mgr := fun key room' hroom' hkey => (h key room' hroom' hkey).mono hk
  exact AllRooms.setRoom hn hroom

theorem setRoom_self (hroom : room.Holds token n) : Held r token n (mgr.setRoom r room) := by
  intro key room' hroom' hkey
  subst hkey
  rw [SFURoomManager.getRoom_setRoom, if_pos rfl] at hroom'
  cases hroom'
  exact hroom

theorem new : Held r token 0 .new := by
  intro key room hroom _ it hit
  have hlobby : defaultRoomId = key ∧
      SFURoom.new defaultRoomId defaultRoomName .publicRoom "" = room := by
    simpa [SFURoomManager.getRoom, SFURoomManager.new, ExtTreeMap.getElem?_insert] using hroom
  obtain ⟨-, rfl⟩ := hlobby
  simp [SFURoom.new] at hit

theorem mint (h : Held r token k mgr) (r' createdBy nonce : String)
    (hn : r' = r ∧ nonce = token → 0 < n) :
    Held r token (k + if r' = r ∧ nonce = token then n else 0)
      (mgr.mint r' createdBy n nonce) := by
  unfold SFURoomManager.mint
  cases hroom : mgr.getRoom r' with
  | none => exact fun key room hkey heq => (h key room hkey heq).mono (Nat.le_add_right ..)
  | some room =>
    refine h.setRoom (Nat.le_add_right ..) ?_
    intro hr
    have hgen := (h r' room hroom hr).generate createdBy nonce fun hnonce => hn ⟨hr, hnonce⟩
    simpa [hr] using hgen

theorem mintChecked (h : Held r token k mgr) (r' requester nonce : String) :
    Held r token (k + if r' = r ∧ nonce = token then 1 else 0)
      (mgr.generateInviteTokenChecked r' requester nonce).1 := by
  have hmore : Held r token (k + if r' = r ∧ nonce = token then 1 else 0) mgr :=
    fun key room hkey heq => (h key room hkey heq).mono (Nat.le_add_right ..)
  have hminted := h.mint r' requester nonce fun _ => Nat.one_pos
  generalize k + (if r' = r ∧ nonce = token then 1 else 0) = m at hmore hminted
  unfold SFURoomManager.generateInviteTokenChecked
  unfold SFURoomManager.mint at hminted
  cases hroom : mgr.getRoom r' with
  | none => exact hmore
  | some room =>
    simp only [hroom] at hminted ⊢
    split
    · exact hmore
    · split
      · exact hminted
      · exact hmore

theorem reregister {r' token' createdBy : String} (h : Held r token k mgr)
    (hne : ¬ (r' = r ∧ token' = token)) :
    Held r token k (mgr.reregisterInviteToken r' token' createdBy).1 := by
  unfold SFURoomManager.reregisterInviteToken
  cases hroom : mgr.getRoom r' with
  | none => exact h
  | some room =>
    refine h.setRoom le_rfl ?_
    intro hr
    unfold SFURoom.reregisterInviteToken
    split
    · exact h r' room hroom hr
    · intro it hit
      have hother : token' ≠ token := fun heq => hne ⟨hr, heq⟩
      simp only [ExtTreeMap.getElem?_insert, compare_eq_iff_eq, hother, if_false] at hit
      exact h r' room hroom hr it hit

theorem redeem {p : String} (h : Held r token k mgr) :
    (mgr.validateRoomInvite r token p).2.toNat ≤ k ∧
      Held r token (k - (mgr.validateRoomInvite r token p).2.toNat)
        (mgr.validateRoomInvite r token p).1 := by
  unfold SFURoomManager.validateRoomInvite
  cases hroom : mgr.getRoom r with
  | none => exact ⟨Nat.zero_le k, h⟩
  | some room =>
    obtain ⟨hle, hholds⟩ := (h r room hroom rfl).consume (p := p)
    exact ⟨hle, setRoom_self hholds⟩

theorem redeem_of_ne {r' token' p : String} (h : Held r token k mgr)
    (hne : ¬ (r' = r ∧ token' = token)) :
    Held r token k (mgr.validateRoomInvite r' token' p).1 := by
  unfold SFURoomManager.validateRoomInvite
  cases hroom : mgr.getRoom r' with
  | none => exact h
  | some room =>
    refine h.setRoom le_rfl ?_
    intro hr
    exact (h r' room hroom hr).consume_of_ne fun heq => hne ⟨hr, heq⟩

theorem step {c : TokenCall} (h : Held r token k mgr) (hlimited : c.budget r token ≠ some 0)
    (hkept : ∀ createdBy, c ≠ .reregisterInviteToken r token createdBy) :
    (c.redeems mgr r token).toNat ≤ k ∧
      Held r token (k + (c.budget r token).getD 0 - (c.redeems mgr r token).toNat)
        (mgr.tokenStep P c) := by
  cases c with
  | generateInviteToken r' createdBy maxUses nonce =>
    refine ⟨Nat.zero_le k, ?_⟩
    have hminted := h.mint (n := maxUses) r' createdBy nonce
      (by
        intro hsame
        simp only [TokenCall.budget, hsame, and_self, if_true] at hlimited
        exact Nat.pos_of_ne_zero fun hzero => hlimited (congrArg some hzero))
    by_cases hsame : r' = r ∧ nonce = token
    · simpa [TokenCall.budget, hsame, TokenCall.redeems, tokenStep, SFURoomManager.step,
          SFURoomManager.call] using hminted
    · simpa [TokenCall.budget, hsame, TokenCall.redeems, tokenStep, SFURoomManager.step,
          SFURoomManager.call] using hminted
  | reregisterInviteToken r' token' createdBy =>
    refine ⟨Nat.zero_le k, h.reregister ?_⟩
    rintro ⟨rfl, rfl⟩
    exact hkept createdBy rfl
  | room call =>
    cases call with
    | validateRoomInvite r' token' p =>
      by_cases hsame : r' = r ∧ token' = token
      · obtain ⟨rfl, rfl⟩ := hsame
        simpa [TokenCall.redeems, TokenCall.budget, tokenStep, SFURoomManager.step,
          SFURoomManager.call] using h.redeem (p := p)
      · simpa [TokenCall.redeems, TokenCall.budget, hsame, tokenStep, SFURoomManager.step,
          SFURoomManager.call] using h.redeem_of_ne hsame (p := p)
    | generateInviteTokenChecked r' requester nonce =>
      refine ⟨Nat.zero_le k, ?_⟩
      have hminted := h.mintChecked r' requester nonce
      by_cases hsame : r' = r ∧ nonce = token
      · simpa [TokenCall.budget, hsame, TokenCall.redeems, tokenStep, SFURoomManager.step,
          SFURoomManager.call] using hminted
      · simpa [TokenCall.budget, hsame, TokenCall.redeems, tokenStep, SFURoomManager.step,
          SFURoomManager.call] using hminted
    | createRoomWithPolicy =>
      refine ⟨Nat.zero_le k, AllRooms.createRoomWithPolicy h ?_⟩
      intro _ it hit
      simp [SFURoomManager.freshRoom, SFURoom.new] at hit
    | gcIdleRooms now idleSecs => exact ⟨Nat.zero_le k, AllRooms.gcIdleRooms h now idleSecs⟩
    | joinRoom p r' =>
      exact ⟨Nat.zero_le k, AllRooms.joinRoom h (fun _ _ hroom hr => (hroom hr).of_eq (by simp)) r'⟩
    | leaveRoom p r' now =>
      exact ⟨Nat.zero_le k, AllRooms.leaveRoom h (fun _ _ hroom hr => (hroom hr).of_eq (by simp)) r'⟩
    | removePeerFromAll p now =>
      exact ⟨Nat.zero_le k,
        AllRooms.removePeerFromAll h fun _ _ hroom hr => (hroom hr).of_eq (by simp)⟩
    | audioForwardTargets r' sender now =>
      exact ⟨Nat.zero_le k,
        AllRooms.audioForwardTargets h (fun _ _ hroom hr => (hroom hr).of_eq (by simp)) r'⟩
    | isChatSender => exact ⟨Nat.zero_le k, h⟩
    | isRoomAuthorizedPeer => exact ⟨Nat.zero_le k, h⟩
    | subscribe p r' =>
      exact ⟨Nat.zero_le k, AllRooms.subscribe h (fun _ _ hroom hr => (hroom hr).of_eq (by simp)) r'⟩
    | unsubscribe p r' now =>
      exact ⟨Nat.zero_le k,
        AllRooms.unsubscribe h (fun _ _ hroom hr => (hroom hr).of_eq (by simp)) r'⟩
    | allowPeer r' p =>
      exact ⟨Nat.zero_le k, AllRooms.allowPeer h (fun _ _ hroom hr => (hroom hr).of_eq rfl) r'⟩
    | adoptCreatorIfEmpty r' owner =>
      exact ⟨Nat.zero_le k,
        AllRooms.adoptCreatorIfEmpty h (fun _ _ hroom hr => (hroom hr).of_eq rfl) r'⟩

/-- Over a run the redemptions stay within what was left and what is minted. -/
theorem redemptions_le {calls : List TokenCall} (h : Held r token k mgr)
    (hlimited : 0 ∉ calls.filterMap (TokenCall.budget r token))
    (hkept : ∀ createdBy, TokenCall.reregisterInviteToken r token createdBy ∉ calls) :
    redemptions P r token mgr calls ≤ k + (calls.filterMap (TokenCall.budget r token)).sum := by
  induction calls generalizing mgr k with
  | nil => exact Nat.zero_le _
  | cons c calls ih =>
    have hzero : c.budget r token ≠ some 0 := by
      intro hc
      exact hlimited (by simp [hc])
    have hrest : 0 ∉ calls.filterMap (TokenCall.budget r token) := by
      intro hmem
      obtain ⟨c', hc', hbudget⟩ := List.mem_filterMap.mp hmem
      exact hlimited (List.mem_filterMap.mpr ⟨c', List.mem_cons_of_mem c hc', hbudget⟩)
    obtain ⟨hle, hafter⟩ := h.step (P := P) hzero
      fun createdBy heq => hkept createdBy (heq ▸ List.mem_cons_self)
    have hrun := ih hafter hrest fun createdBy hmem =>
      hkept createdBy (List.mem_cons_of_mem c hmem)
    have hsum : ((c :: calls).filterMap (TokenCall.budget r token)).sum =
        (c.budget r token).getD 0 + (calls.filterMap (TokenCall.budget r token)).sum := by
      cases hc : c.budget r token <;> simp [hc]
    simp only [redemptions, hsum]
    omega

end Held

/-! ## Redemptions -/

theorem SFURoomManager.setRoom_self {mgr : SFURoomManager} {r : String} {room : SFURoom}
    (h : mgr.getRoom r = some room) : mgr.setRoom r room = mgr := by
  have hrooms : mgr.rooms.insert r room = mgr.rooms := by
    refine ExtTreeMap.ext_getElem? fun r' => ?_
    rw [ExtTreeMap.getElem?_insert]
    split
    · next heq =>
      rw [← compare_eq_iff_eq.mp heq]
      exact h.symm
    · rfl
  unfold SFURoomManager.setRoom
  rw [hrooms]

theorem redemptionExact (mgr : SFURoomManager) (c : TokenCall) : RedemptionExact mgr c := by
  unfold RedemptionExact
  split
  · next r token p =>
    unfold SFURoomManager.validateRoomInvite
    cases hroom : mgr.getRoom r with
    | none => rfl
    | some room =>
      rcases room.consume_cases token p with hfail | ⟨tokens, hok, -⟩
      · simp only [hfail]
        exact SFURoomManager.setRoom_self hroom
      · simp only [hok]
        exact ⟨room, tokens, rfl, rfl⟩
  · trivial

/-! ## Who is in a private room -/

namespace SFURoom.Closed

variable {room room' : SFURoom} {p : String} {now : Rat}

theorem of_subset (h : room.Closed) (htype : room'.roomType = room.roomType)
    (hcreator : room'.creatorId = room.creatorId) (hallowed : ∀ q ∈ room.allowed, q ∈ room'.allowed)
    (hin : ∀ q, (q ∈ room'.participants ∨ q ∈ room'.subscribers) →
      q ∈ room.participants ∨ q ∈ room.subscribers) : room'.Closed := by
  intro hprivate q hq
  rcases h (htype ▸ hprivate) q (hin q hq) with heq | hmem | hempty
  · exact .inl (hcreator.trans heq)
  · exact .inr (.inl (hallowed q hmem))
  · exact .inr (.inr hempty)

theorem admitted (h : room.Closed) (hprivate : room.roomType = .privateRoom)
    (hallowed : room.isPeerAllowed p = true) :
    room.creatorId = normalizePublicId p ∨ normalizePublicId p ∈ room.allowed ∨
      normalizePublicId p = "" := by
  simp only [isPeerAllowed, isPublic, hprivate, reduceCtorEq, decide_false, Bool.false_or,
    Bool.or_eq_true, beq_iff_eq] at hallowed
  rcases hallowed with (hin | hcreator) | hpart
  · exact .inr (.inl (ExtTreeSet.mem_iff_contains.mpr hin))
  · exact .inl hcreator
  · exact h hprivate _ (.inl (ExtTreeMap.mem_iff_contains.mpr hpart))

theorem addParticipant (h : room.Closed) (hallowed : room.isPeerAllowed p = true) :
    (room.addParticipant p).1.Closed := by
  unfold SFURoom.addParticipant
  simp only
  split
  · exact h
  · split
    · exact h
    · intro hprivate q hq
      simp only [markInUse, ExtTreeMap.mem_insert, ExtTreeSet.mem_erase, compare_eq_iff_eq] at hq
      rcases hq with (rfl | hq) | ⟨-, hq⟩
      · exact h.admitted hprivate hallowed
      · exact h hprivate q (.inl hq)
      · exact h hprivate q (.inr hq)

theorem subscribe (h : room.Closed) (hallowed : room.isPeerAllowed p = true) :
    (room.subscribe p).Closed := by
  unfold SFURoom.subscribe
  simp only
  split
  · exact h
  · intro hprivate q hq
    simp only [markInUse, ExtTreeSet.mem_insert, compare_eq_iff_eq] at hq
    rcases hq with hq | rfl | hq
    · exact h hprivate q (.inl hq)
    · exact h.admitted hprivate hallowed
    · exact h hprivate q (.inr hq)

theorem markUnusedIfEmpty (h : room.Closed) : (room.markUnusedIfEmpty now).Closed :=
  h.of_subset (by simp) (by simp) (by simp) (by simp)

theorem forgetSpeaker (h : room.Closed) (q : String) : (room.forgetSpeaker q).Closed := h

theorem erase_participant (h : room.Closed) :
    Closed { room with participants := room.participants.erase p } := by
  refine h.of_subset rfl rfl (fun _ hq => hq) ?_
  rintro q (hq | hq)
  · exact .inl (ExtTreeMap.mem_erase.mp hq).2
  · exact .inr hq

theorem erase_subscriber (h : room.Closed) :
    Closed { room with subscribers := room.subscribers.erase p } := by
  refine h.of_subset rfl rfl (fun _ hq => hq) ?_
  rintro q (hq | hq)
  · exact .inl hq
  · exact .inr (ExtTreeSet.mem_erase.mp hq).2

theorem removeParticipant (h : room.Closed) : (room.removeParticipant p now).Closed := by
  unfold SFURoom.removeParticipant
  simp only
  split
  · exact h.erase_participant.markUnusedIfEmpty
  · exact h

theorem unsubscribe (h : room.Closed) : (room.unsubscribe p now).Closed := by
  unfold SFURoom.unsubscribe
  simp only
  split
  · exact h.erase_subscriber.markUnusedIfEmpty
  · exact h

theorem removePeerEntirely (h : room.Closed) : (room.removePeerEntirely p now).1.Closed := by
  have hgone := (h.erase_participant (p := normalizePublicId p)).erase_subscriber
    (p := normalizePublicId p)
  unfold SFURoom.removePeerEntirely
  simp only
  cases room.participants.contains (normalizePublicId p) with
  | true => exact (hgone.forgetSpeaker _).markUnusedIfEmpty
  | false =>
    cases room.subscribers.contains (normalizePublicId p) with
    | true => exact hgone.markUnusedIfEmpty
    | false => exact hgone

theorem noteAudio (h : room.Closed) {decay : Rat → Rat} {sender : String} :
    (room.noteAudioShouldForward decay sender now).1.Closed := by
  obtain ⟨_, _, heq⟩ := room.noteAudio_fields decay sender now
  rw [heq]
  exact h

theorem allowPeer (h : room.Closed) : (room.allowPeer p).Closed :=
  h.of_subset rfl rfl (fun _ hq => ExtTreeSet.mem_insert.mpr (.inr hq)) fun _ hq => hq

theorem consume (h : room.Closed) {token : String} :
    (room.validateAndConsumeToken token p).1.Closed := by
  rcases room.consume_cases token p with hfail | ⟨tokens, hok, -⟩
  · rw [hfail]
    exact h
  · rw [hok]
    exact h.allowPeer (p := p)

theorem adopt (h : room.Closed) {owner : String} (hnone : room.creatorId = "") :
    Closed { room with creatorId := owner } := by
  intro hprivate q hq
  rcases h hprivate q hq with heq | hmem | hempty
  · exact .inr (.inr (heq.symm.trans hnone))
  · exact .inr (.inl hmem)
  · exact .inr (.inr hempty)

end SFURoom.Closed

/-- Every private room of the table is closed. -/
def AllClosed (mgr : SFURoomManager) : Prop :=
  AllRooms (fun _ room => room.Closed) mgr

namespace AllClosed

variable {P : Platform} {mgr : SFURoomManager} {p r : String}

theorem new : AllClosed .new := by
  intro key room hroom hprivate
  have hlobby : defaultRoomId = key ∧
      SFURoom.new defaultRoomId defaultRoomName .publicRoom "" = room := by
    simpa [SFURoomManager.getRoom, SFURoomManager.new, ExtTreeMap.getElem?_insert] using hroom
  obtain ⟨-, rfl⟩ := hlobby
  cases hprivate

theorem joinRoom (h : AllClosed mgr) : AllClosed (mgr.joinRoom p r).1 := by
  unfold SFURoomManager.joinRoom
  simp only
  split
  · exact h
  · next room hroom =>
    split
    · next hallowed => exact AllRooms.setRoom h ((h r room hroom).addParticipant hallowed)
    · exact h

theorem subscribe (h : AllClosed mgr) : AllClosed (mgr.subscribe p r).1 := by
  unfold SFURoomManager.subscribe
  split
  · exact h
  · next room hroom =>
    split
    · next hallowed => exact AllRooms.setRoom h ((h r room hroom).subscribe hallowed)
    · exact h

theorem adoptCreatorIfEmpty (h : AllClosed mgr) {owner : String} :
    AllClosed (mgr.adoptCreatorIfEmpty r owner) := by
  unfold SFURoomManager.adoptCreatorIfEmpty
  split
  · exact h
  · split
    · next room hroom =>
      split
      · next hnone => exact AllRooms.setRoom h ((h r room hroom).adopt hnone)
      · exact h
    · exact h

theorem mint (h : AllClosed mgr) {createdBy nonce : String} {n : Nat} :
    AllClosed (mgr.mint r createdBy n nonce) := by
  unfold SFURoomManager.mint
  split
  · exact h
  · next room hroom => exact AllRooms.setRoom h (h r room hroom)

theorem reregister (h : AllClosed mgr) {token createdBy : String} :
    AllClosed (mgr.reregisterInviteToken r token createdBy).1 := by
  unfold SFURoomManager.reregisterInviteToken
  split
  · exact h
  · next room hroom =>
    refine AllRooms.setRoom h ?_
    unfold SFURoom.reregisterInviteToken
    split
    · exact h r room hroom
    · exact h r room hroom

theorem step (h : AllClosed mgr) (c : TokenCall) : AllClosed (mgr.tokenStep P c) := by
  cases c with
  | generateInviteToken => exact h.mint
  | reregisterInviteToken => exact h.reregister
  | room call =>
    cases call with
    | createRoomWithPolicy =>
      refine AllRooms.createRoomWithPolicy h ?_
      intro _ q hq
      simp [SFURoomManager.freshRoom, SFURoom.new] at hq
    | gcIdleRooms now idleSecs => exact AllRooms.gcIdleRooms h now idleSecs
    | joinRoom => exact h.joinRoom
    | leaveRoom _ r =>
      exact AllRooms.leaveRoom h (fun _ _ hroom => hroom.removeParticipant.markUnusedIfEmpty) r
    | removePeerFromAll => exact AllRooms.removePeerFromAll h fun _ _ hroom => hroom.removePeerEntirely
    | audioForwardTargets r =>
      exact AllRooms.audioForwardTargets h (fun _ _ hroom => hroom.noteAudio) r
    | isChatSender => exact h
    | isRoomAuthorizedPeer => exact h
    | subscribe => exact h.subscribe
    | unsubscribe _ r => exact AllRooms.unsubscribe h (fun _ _ hroom => hroom.unsubscribe) r
    | validateRoomInvite r => exact AllRooms.validateRoomInvite h (fun _ _ hroom => hroom.consume) r
    | allowPeer r => exact AllRooms.allowPeer h (fun _ _ hroom => hroom.allowPeer) r
    | adoptCreatorIfEmpty => exact h.adoptCreatorIfEmpty
    | generateInviteTokenChecked r =>
      exact AllRooms.generateInviteTokenChecked h (fun _ _ hroom => hroom) r

end AllClosed

/-! ## Runs -/

/-- Over any calls a token that nobody re-registers is redeemed no more often than
it was minted for. Every redemption allows its peer in, and one that fails changes
nothing. In a private room there are only its creator, those allowed in, and
perhaps the empty id. -/
theorem inviteTokens_budgeted (P : Platform) (calls : List TokenCall) :
    (∀ roomId token, 0 ∉ calls.filterMap (TokenCall.budget roomId token) →
        (∀ createdBy, TokenCall.reregisterInviteToken roomId token createdBy ∉ calls) →
        redemptions P roomId token .new calls ≤
          (calls.filterMap (TokenCall.budget roomId token)).sum) ∧
      Along (tokenStep P) RedemptionExact .new calls ∧
      AllClosed (run (tokenStep P) .new calls) := by
  refine ⟨?_, ?_, ?_⟩
  · intro roomId token hlimited hkept
    have hle := Held.new.redemptions_le (P := P) hlimited hkept
    rwa [Nat.zero_add] at hle
  · exact along_of_forall redemptionExact
  · exact run_inv AllClosed AllClosed.new fun _ c h => h.step c

/-- A private room with a token for two, which three peers present. -/
def twoOfThree : List TokenCall :=
  [.room (.createRoomWithPolicy (some "den") "den" .privateRoom "alice" "owner" 0),
    .generateInviteToken "den" "alice" 2 "token",
    .room (.validateRoomInvite "den" "token" "bob"),
    .room (.validateRoomInvite "den" "token" "carol"),
    .room (.validateRoomInvite "den" "token" "dave"),
    .room (.joinRoom "bob" "den")]

theorem inviteTokens_budgeted_two :
    redemptions .symbolic "den" "token" .new twoOfThree ≤ 2 ∧
      redemptions .symbolic "den" "token" .new twoOfThree = 2 :=
  ⟨(inviteTokens_budgeted .symbolic twoOfThree).1 "den" "token" (by decide)
      (by simp [twoOfThree]),
    by decide +kernel⟩

/-- A private room without a creator, to which the empty id subscribes before the
room adopts one. -/
def ownerless : List TokenCall :=
  [.room (.createRoomWithPolicy (some "den") "den" .privateRoom "" "owner" 0),
    .room (.subscribe "" "den"),
    .room (.adoptCreatorIfEmpty "den" "alice")]

/-- The empty id stays subscribed; it is not the creator, is not allowed in and has
never been a participant. -/
theorem emptyId_subscribed :
    ¬ ∀ calls r room p, (run (tokenStep .symbolic) .new calls).getRoom r = some room →
      room.roomType = .privateRoom → (p ∈ room.participants ∨ p ∈ room.subscribers) →
        room.creatorId = p ∨ p ∈ room.allowed ∨
          ∃ before, before <+: calls ∧
            IsParticipant (run (tokenStep .symbolic) .new before) r p := by
  intro h
  have hafter : ((run (tokenStep .symbolic) .new ownerless).getRoom "den").any (fun room =>
      room.roomType = .privateRoom ∧ room.subscribers.contains "" ∧ room.creatorId ≠ "" ∧
        ¬ room.allowed.contains "") = true := by decide +kernel
  have hnever : ∀ before ∈ ownerless.inits,
      ((run (tokenStep .symbolic) .new before).getRoom "den").any
        (fun room => room.participants.contains "") = false := by decide +kernel
  obtain ⟨room, hroom, hfacts⟩ := (Option.any_eq_true ..).mp hafter
  obtain ⟨hprivate, hsub, hcreator, hallowed⟩ := of_decide_eq_true hfacts
  rcases h ownerless "den" room "" hroom hprivate (.inr (ExtTreeSet.mem_iff_contains.mpr hsub))
    with heq | hmem | ⟨before, hbefore, room', hroom', hpart⟩
  · exact hcreator heq
  · exact hallowed (ExtTreeSet.mem_iff_contains.mp hmem)
  · have hnot := hnever before ((List.mem_inits before ownerless).mpr hbefore)
    rw [hroom', Option.any_some, ExtTreeMap.mem_iff_contains.mp hpart] at hnot
    cases hnot

end ConquerD.Supernode
