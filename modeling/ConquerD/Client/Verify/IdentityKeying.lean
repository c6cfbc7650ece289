import ConquerD.Client.Inbound
import Mathlib.Data.Set.Lattice

/-!
# Keying by identities

What the keying of rooms is about, without the texts that stand for members: each room has a
set of identities, the smallest keys it, and a key goes to each identity that can be sealed
to and is outstanding until that identity confirms it.
-/

namespace ConquerD.Client

open Wire

/-- The text an identity is known by here: an id with one pad and the id without it are one,
and any other text stands for itself. -/
def identityOf (id : String) : String :=
  if id = (bare id).push '=' then bare id else id

@[simp] theorem bare_identityOf (id : String) : bare (identityOf id) = bare id := by
  unfold identityOf
  split
  · exact bare_bare id
  · rfl

theorem bare_eq_of_identityOf {a b : String} (h : identityOf a = identityOf b) :
    bare a = bare b := by
  rw [← bare_identityOf a, h, bare_identityOf]

/-- Whom a message goes to, by identity. -/
def Outgoing.identity : Outgoing → Outgoing
  | .groupKey member roomId epoch key => .groupKey (identityOf member) roomId epoch key
  | .groupKeyAck keyer roomId epoch => .groupKeyAck (identityOf keyer) roomId epoch
  | o => o

/-- Rooms and what they are keyed by, as one client sees them. -/
@[ext]
structure IdentityKeying where
  me : String
  /-- By supernode and room. -/
  snapshots : String → Set String
  keys : SenderKeysGroup
  /-- By room and identity. -/
  outstanding : String → String → Option PendingGroupKeyAck

namespace IdentityKeying

/-- The entry of a key that is sent once more. -/
def noted (env : Env) (epoch : Nat) : Option PendingGroupKeyAck → PendingGroupKeyAck
  | some p => ⟨epoch, env.nowMs, min (p.attempts + 1) 255⟩
  | none => ⟨epoch, env.nowMs, 1⟩

variable (P : Platform) (env : Env) (K : IdentityKeying)

def inRoom (roomId : String) : Set String :=
  {id | ∃ key, endsWithRoom key roomId = true ∧ id ∈ K.snapshots key}

/-- Nobody in the room comes before the keyer. -/
def Elects (roomId keyer : String) : Prop :=
  ∀ id ∈ K.inRoom roomId, ¬ bare id < bare keyer

noncomputable section

open scoped Classical

/-- A key goes to each of the identities. -/
def distribute (roomId : String) (epoch : Nat) (key : EpochKey) (ids : Set String) :
    IdentityKeying × Set Outgoing :=
  ({ K with
      outstanding := fun r id =>
        if r = roomId ∧ id ∈ ids ∧ env.canSealTo id = true then
          some (noted env epoch (K.outstanding r id))
        else K.outstanding r id },
    {x | ∃ id ∈ ids, env.canSealTo id = true ∧ x = .groupKey id roomId epoch key})

/-- Nothing is awaited from the identities any more. -/
def settle (roomId : String) (ids : Set String) : IdentityKeying :=
  { K with
    outstanding := fun r id => if r = roomId ∧ id ∈ ids then none else K.outstanding r id }

/-- The elected keyer answers a change of who is in the room. -/
def keyRoom (roomId : String) (old : Set String) : IdentityKeying × Set Outgoing :=
  let now := K.inRoom roomId
  let hasReal := K.keys.hasRealKey roomId
  if hasReal = false ∧ now.Nonempty then
    let minted := K.keys.newOwnerEpoch roomId env.nowMs env.randomKey
    { K with keys := minted.1 }.distribute env roomId minted.2 env.randomKey now
  else if hasReal = true ∧ ¬ old ⊆ now then
    let rotated := K.keys.rotate roomId env.nowMs env.randomKey
    ({ K with keys := rotated.1 }.settle roomId Set.univ).distribute env roomId rotated.2
      env.randomKey now
  else if hasReal = true ∧ ¬ now ⊆ old then
    match K.keys.epochKey roomId P (K.keys.currentEpoch roomId) with
    | none => (K, ∅)
    | some key => K.distribute env roomId (K.keys.currentEpoch roomId) key (now \ old)
  else (K, ∅)

/-- A supernode tells who is in a room. -/
def sync (supernodeId roomId : String) (ids : Set String) : IdentityKeying × Set Outgoing :=
  let told := { K with
    snapshots := Function.update K.snapshots (roomScopeKey supernodeId roomId) (ids \ {K.me}) }
  if told.Elects roomId K.me then
    (told.settle roomId (told.inRoom roomId)ᶜ).keyRoom P env roomId (K.inRoom roomId)
  else (told.settle roomId Set.univ, ∅)

/-- The sender may key the room, with the epoch it offers. -/
def Accepts (sender roomId : String) (epoch : Nat) : Prop :=
  K.Elects roomId sender ∧ ¬ bare K.me < bare sender ∧
    acceptGroupKeyEpoch (K.keys.hasRealKey roomId) (K.keys.currentEpoch roomId) epoch = true

/-- A key is offered. -/
def groupKey (sender : String) (payload : Json) : IdentityKeying × Set Outgoing :=
  let roomId := (payload.str? "room_id").getD ""
  match (payload.get? "epoch").bind Json.asU64?, payload.str? "key" with
  | some epoch, some keyB64 =>
    if roomId = "" ∨ ¬ K.Accepts sender roomId (epoch % 256) then (K, ∅)
    else
      match (b64urlDecode P keyB64).filter (·.length = 32) with
      | some key =>
        ({ K with keys := K.keys.install roomId env.nowMs (epoch % 256) key },
          {x | env.canSealTo sender = true ∧ x = .groupKeyAck sender roomId (epoch % 256)})
      | none => (K, ∅)
  | _, _ => (K, ∅)

/-- A key is confirmed. -/
def groupKeyAck (sender : String) (payload : Json) : IdentityKeying :=
  let roomId := (payload.str? "room_id").getD ""
  match (payload.get? "epoch").bind Json.asU64? with
  | none => K
  | some epoch =>
    if roomId ≠ "" ∧ (K.outstanding roomId sender).any (·.epoch == epoch % 256) = true then
      K.settle roomId {sender}
    else K

/-- What the retry timer makes of a key that is outstanding, and what it sends. -/
def retryEntry (roomId id : String) (p : PendingGroupKeyAck) :
    Option PendingGroupKeyAck × Option Outgoing :=
  if id ∉ K.inRoom roomId ∨ ¬ K.Elects roomId K.me ∨ p.attempts ≥ groupKeyMaxAttempts then
    (none, none)
  else if env.nowMs - p.lastSent ≥ groupKeyRetryIntervalMs then
    match K.keys.epochKey roomId P p.epoch with
    | none => (none, none)
    | some key =>
      if env.canSealTo id then
        (some (noted env p.epoch (some p)), some (.groupKey id roomId p.epoch key))
      else (some p, none)
  else (some p, none)

def retry : IdentityKeying × Set Outgoing :=
  ({ K with
      outstanding := fun r id =>
        (K.outstanding r id).bind fun p => (K.retryEntry P env r id p).1 },
    {x | ∃ r id p, K.outstanding r id = some p ∧ (K.retryEntry P env r id p).2 = some x})

/-- A frame of the sender is still under an old epoch. -/
def reseal (roomId sender : String) (senderEpoch : Nat) : IdentityKeying × Set Outgoing :=
  match K.keys.currentEpochAge roomId env.nowMs with
  | none => (K, ∅)
  | some age =>
    let epoch := K.keys.currentEpoch roomId
    if shouldResealToLaggingMember senderEpoch epoch age = true ∧ K.Elects roomId K.me then
      match K.keys.epochKey roomId P epoch with
      | none => (K, ∅)
      | some key =>
        let ids := {id ∈ K.inRoom roomId | bare id = bare sender ∧
          (K.outstanding roomId id).any (·.epoch == epoch) = false}
        (K.settle roomId ids).distribute env roomId epoch key ids
    else (K, ∅)

inductive Call where
  | sync (supernodeId roomId : String) (ids : Set String)
  | groupKey (sender : String) (payload : Json)
  | groupKeyAck (sender : String) (payload : Json)
  | retry
  | reseal (roomId sender : String) (senderEpoch : Nat)

def call (i : Env × Call) : IdentityKeying × Set Outgoing :=
  match i.2 with
  | .sync supernodeId roomId ids => K.sync P i.1 supernodeId roomId ids
  | .groupKey sender payload => K.groupKey P i.1 sender payload
  | .groupKeyAck sender payload => (K.groupKeyAck sender payload, ∅)
  | .retry => K.retry P i.1
  | .reseal roomId sender senderEpoch => K.reseal P i.1 roomId sender senderEpoch

/-- The entry of one identity is another. -/
def withEntry (roomId id : String) (entry : Option PendingGroupKeyAck) : IdentityKeying :=
  { K with
    outstanding := fun r i => if r = roomId ∧ i = id then entry else K.outstanding r i }

/-- The retry timer, for one identity that something is outstanding for. -/
def retryOne (roomId id : String) (p : PendingGroupKeyAck) : IdentityKeying × Set Outgoing :=
  (K.withEntry roomId id (K.retryEntry P env roomId id p).1,
    {x | (K.retryEntry P env roomId id p).2 = some x})

/-! ## Distributing and settling -/

variable {P env K} {roomId : String} {epoch : Nat} {key : EpochKey} {ids : Set String}

theorem distribute_empty : K.distribute env roomId epoch key ∅ = (K, ∅) := by
  refine Prod.ext (IdentityKeying.ext rfl rfl rfl ?_) ?_
  · funext r id
    simp [distribute]
  · simp [distribute]

theorem distribute_insert {id : String} (h : id ∉ ids) :
    K.distribute env roomId epoch key (insert id ids) =
      (((K.distribute env roomId epoch key {id}).1.distribute env roomId epoch key ids).1,
        (K.distribute env roomId epoch key {id}).2 ∪
          ((K.distribute env roomId epoch key {id}).1.distribute env roomId epoch key ids).2) := by
  refine Prod.ext (IdentityKeying.ext rfl rfl rfl ?_) ?_
  · funext r other
    simp only [distribute, Set.mem_insert_iff, Set.mem_singleton_iff]
    by_cases hother : other = id
    · subst hother
      simp [h]
    · simp [hother]
  · ext x
    simp only [distribute, Set.mem_insert_iff, Set.mem_singleton_iff, exists_eq_or_imp,
      exists_eq_left, Set.mem_union]
    rfl

theorem settle_empty : K.settle roomId ∅ = K := by
  refine IdentityKeying.ext rfl rfl rfl ?_
  funext r id
  simp [settle]

theorem settle_singleton (id : String) : K.settle roomId {id} = K.withEntry roomId id none := by
  refine IdentityKeying.ext rfl rfl rfl ?_
  funext r i
  simp only [settle, withEntry, Set.mem_singleton_iff]

theorem distribute_singleton {id : String} (h : env.canSealTo id = true) :
    K.distribute env roomId epoch key {id} =
      (K.withEntry roomId id (some (noted env epoch (K.outstanding roomId id))),
        {.groupKey id roomId epoch key}) := by
  refine Prod.ext (IdentityKeying.ext rfl rfl rfl ?_) ?_
  · funext r i
    simp only [distribute, withEntry, Set.mem_singleton_iff]
    by_cases heq : r = roomId ∧ i = id
    · obtain ⟨rfl, rfl⟩ := heq
      simp [h]
    · rw [if_neg heq, if_neg fun hall => heq ⟨hall.1, hall.2.1⟩]
  · ext x
    simp [distribute, h]

theorem distribute_unsealable {id : String} (h : env.canSealTo id = false) :
    K.distribute env roomId epoch key {id} = (K, ∅) := by
  refine Prod.ext (IdentityKeying.ext rfl rfl rfl ?_) ?_
  · funext r i
    simp only [distribute, Set.mem_singleton_iff]
    rw [if_neg]
    rintro ⟨-, rfl, hall⟩
    rw [h] at hall
    cases hall
  · ext x
    simp [distribute, h]

theorem reseal_identityOf (sender : String) (senderEpoch : Nat) :
    K.reseal P env roomId (identityOf sender) senderEpoch =
      K.reseal P env roomId sender senderEpoch := by
  unfold reseal
  rw [bare_identityOf]

theorem withEntry_self {id : String} : K.withEntry roomId id (K.outstanding roomId id) = K := by
  refine IdentityKeying.ext rfl rfl rfl ?_
  funext r i
  simp only [withEntry]
  split
  · next heq => rw [heq.1, heq.2]
  · rfl

end

end IdentityKeying

end ConquerD.Client
