import ConquerD.Client.Verify.RoomMerge
import Mathlib.Data.List.Rotate

/-!
# Rows under the canonical ids of their supernodes

Rows and tombstones are moved one by one over a map, and each move writes over what is
there. Where several come to one key, which of them is left depends on the order the map
is visited in; and a row that was there before is lost with all it knew. A tombstone is
filed under what stands before its first colon, which is part of the id where the id has
a colon.
-/

namespace ConquerD.Client

open Std (ExtTreeMap ExtTreeSet)
open Lib.Keyed Lib.Run Wire

/-! ## The resolver -/

namespace PeerStore

variable (peers : PeerStore)

def Visits (order : List String) : Prop :=
  order.Perm peers.records.keys

/-- The id a supernode is known by. -/
def canonical (order : List String) (id : String) : String :=
  (peers.resolveSupernodeIdentityPub order id).getD id

/-- All trusted supernodes that have the id, as peer id or identity, have one identity. -/
def OneIdentity : Prop :=
  ∀ (k k' : String) (r r' : PeerRecord), peers.records[k]? = some r →
    peers.records[k']? = some r' → ∀ id ≠ "", r.isSupernodeNamed id = true →
      r'.isSupernodeNamed id = true → r.identityPub = r'.identityPub

section Resolver

variable {peers : PeerStore} {order order' : List String} {id c : String}

theorem mem_visited (horder : peers.Visits order) {r : PeerRecord} :
    r ∈ order.filterMap peers.get ↔ ∃ k : String, peers.records[k]? = some r := by
  rw [List.mem_filterMap]
  constructor
  · rintro ⟨k, -, hk⟩
    exact ⟨k, hk⟩
  · rintro ⟨k, hk⟩
    refine ⟨k, horder.mem_iff.mpr (ExtTreeMap.mem_keys.mpr ?_), hk⟩
    exact ExtTreeMap.mem_iff_isSome_getElem?.mpr (by rw [hk]; rfl)

theorem of_resolve (horder : peers.Visits order)
    (h : peers.resolveSupernodeIdentityPub order id = some c) :
    id ≠ "" ∧ ∃ (k : String) (r : PeerRecord), peers.records[k]? = some r ∧
      r.isSupernodeNamed id = true ∧ r.identityPub = c := by
  rw [resolveSupernodeIdentityPub] at h
  split at h
  · cases h
  · next hid =>
    obtain ⟨r, hfound, rfl⟩ := Option.map_eq_some_iff.mp h
    obtain ⟨k, hk⟩ := (mem_visited horder).mp (List.mem_of_find?_eq_some hfound)
    have hnamed := List.find?_some hfound
    exact ⟨hid, k, r, hk, hnamed, rfl⟩

theorem resolve_of_named (h : peers.OneIdentity) (horder : peers.Visits order) (hid : id ≠ "")
    {k : String} {r : PeerRecord} (hk : peers.records[k]? = some r)
    (hnamed : r.isSupernodeNamed id = true) :
    peers.resolveSupernodeIdentityPub order id = some r.identityPub := by
  have hfound : ∃ r', (order.filterMap peers.get).find? (fun r => r.isSupernodeNamed id) = some r' := by
    refine Option.isSome_iff_exists.mp (List.find?_isSome.mpr ⟨r, ?_, hnamed⟩)
    exact (mem_visited horder).mpr ⟨k, hk⟩
  obtain ⟨r', hr'⟩ := hfound
  obtain ⟨k', hk'⟩ := (mem_visited horder).mp (List.mem_of_find?_eq_some hr')
  have hnamed' := List.find?_some hr'
  rw [resolveSupernodeIdentityPub, if_neg hid, hr', Option.map_some,
    h k' k r' r hk' hk id hid hnamed' hnamed]

theorem oneIdentity_iff : peers.OneIdentity ↔ ∀ order order' id, peers.Visits order →
    peers.Visits order' →
      peers.resolveSupernodeIdentityPub order id = peers.resolveSupernodeIdentityPub order' id := by
  constructor
  · intro h order order' id horder horder'
    cases hres : peers.resolveSupernodeIdentityPub order id with
    | some c =>
      obtain ⟨hid, k, r, hk, hnamed, rfl⟩ := of_resolve horder hres
      exact (resolve_of_named h horder' hid hk hnamed).symm
    | none =>
      cases hres' : peers.resolveSupernodeIdentityPub order' id with
      | none => rfl
      | some c =>
        obtain ⟨hid, k, r, hk, hnamed, -⟩ := of_resolve horder' hres'
        rw [resolve_of_named h horder hid hk hnamed] at hres
        cases hres
  · intro h k k' r r' hk hk' id hid hnamed hnamed'
    -- each of the two records may be visited first
    have hfirst : ∀ (k : String) (r : PeerRecord), peers.records[k]? = some r →
        r.isSupernodeNamed id = true → ∃ order, peers.Visits order ∧
          peers.resolveSupernodeIdentityPub order id = some r.identityPub := by
      intro k r hk hnamed
      have hmem : k ∈ peers.records.keys := by
        refine ExtTreeMap.mem_keys.mpr (ExtTreeMap.mem_iff_isSome_getElem?.mpr ?_)
        rw [hk]
        rfl
      refine ⟨k :: peers.records.keys.erase k, (List.perm_cons_erase hmem).symm, ?_⟩
      have hget : peers.get k = some r := hk
      rw [resolveSupernodeIdentityPub, if_neg hid, List.filterMap_cons_some hget]
      simp only [List.find?_cons, hnamed, Option.map_some]
    obtain ⟨order, horder, hres⟩ := hfirst k r hk hnamed
    obtain ⟨order', horder', hres'⟩ := hfirst k' r' hk' hnamed'
    have heq := h order order' id horder horder'
    rw [hres, hres'] at heq
    exact Option.some_inj.mp heq

theorem canonical_canonical (h : peers.OneIdentity) (horder : peers.Visits order) (id : String) :
    peers.canonical order (peers.canonical order id) = peers.canonical order id := by
  cases hres : peers.resolveSupernodeIdentityPub order id with
  | none =>
    have hsame : peers.canonical order id = id := by rw [canonical, hres, Option.getD_none]
    rw [hsame, hsame]
  | some c =>
    obtain ⟨hid, k, r, hk, hnamed, rfl⟩ := of_resolve horder hres
    have hto : peers.canonical order id = r.identityPub := by rw [canonical, hres, Option.getD_some]
    rw [hto]
    by_cases hempty : r.identityPub = ""
    · rw [canonical, resolveSupernodeIdentityPub, if_pos hempty, Option.getD_none]
    · have hself : r.isSupernodeNamed r.identityPub = true := by
        rw [PeerRecord.isSupernodeNamed, Bool.and_eq_true] at hnamed ⊢
        exact ⟨hnamed.1, by rw [beq_self_eq_true, Bool.true_or]⟩
      rw [canonical, resolve_of_named h horder hempty hk hself, Option.getD_some]

end Resolver

end PeerStore

namespace Rooms

/-! ## Moves -/

variable (resolve : String → Option String)

/-- The row under the canonical id of its supernode. -/
def relabelled (e : RoomEntry) : RoomEntry :=
  { e with supernodeId := (resolve e.supernodeId).getD e.supernodeId }

/-- The row is not under the canonical id. -/
def Misfiled (e : RoomEntry) : Prop :=
  relabelled resolve e ≠ e

instance (e : RoomEntry) : Decidable (Misfiled resolve e) :=
  inferInstanceAs (Decidable (¬ _))

/-- What stands before the first colon, which is taken for the id of the supernode. -/
def beforeColon (key : String) : String :=
  String.ofList (key.toList.takeWhile (· ≠ ':'))

def afterColon (key : String) : String :=
  String.ofList ((key.toList.dropWhile (· ≠ ':')).drop 1)

/-- The key of a tombstone under the canonical id of its supernode. -/
def rekeyed (key : String) : String :=
  if ':' ∈ key.toList then
    entryKey ((resolve (beforeColon key)).getD (beforeColon key)) (afterColon key)
  else key

def rowMove (e : RoomEntry) : Option (Move RoomEntry) :=
  if Misfiled resolve e then some ⟨e.key, (relabelled resolve e).key, relabelled resolve e⟩ else none

def tombstoneMove (key : String) : Option (Move Unit) :=
  if rekeyed resolve key ≠ key then some ⟨key, rekeyed resolve key, ()⟩ else none

section Moves

variable {resolve : String → Option String} {m : Rooms} {e : RoomEntry} {key : String} {c : Change}

theorem misfiled_iff : Misfiled resolve e ↔ ∃ canon, resolve e.supernodeId = some canon ∧
    canon ≠ e.supernodeId := by
  rw [Misfiled, relabelled]
  cases hres : resolve e.supernodeId with
  | none =>
    rw [Option.getD_none]
    exact iff_of_false (fun h => h rfl) nofun
  | some canon =>
    rw [Option.getD_some]
    constructor
    · exact fun h => ⟨canon, rfl, fun heq => h (by rw [heq])⟩
    · rintro ⟨_, ⟨⟩, hne⟩ heq
      exact hne (congrArg RoomEntry.supernodeId heq)

theorem moveEntry_of_misfiled (h : Misfiled resolve e) (c : Change) :
    moveEntry resolve c e = .changed { c.memory with
      rooms := (c.memory.rooms.erase e.key).insert (relabelled resolve e).key
        (relabelled resolve e) } := by
  obtain ⟨canon, hres, hne⟩ := misfiled_iff.mp h
  rw [moveEntry, relabelled, hres]
  simp only [if_neg hne, Option.getD_some]

theorem moveEntry_of_filed (h : ¬ Misfiled resolve e) (c : Change) : moveEntry resolve c e = c := by
  rw [moveEntry]
  split
  · rfl
  · next canon hres =>
    rw [if_pos]
    exact by_contra fun hne => h (misfiled_iff.mpr ⟨canon, hres, hne⟩)

theorem toList_entryKey (sn id : String) :
    (entryKey sn id).toList = sn.toList ++ ':' :: id.toList := by
  rw [entryKey, String.toList_append, String.toList_append, List.append_assoc]
  rfl

theorem entryKey_left_inj {sn sn' id : String} (h : entryKey sn id = entryKey sn' id) : sn = sn' := by
  have hlist := congrArg String.toList h
  rw [toList_entryKey, toList_entryKey] at hlist
  exact String.toList_inj.mp (List.append_cancel_right hlist)

theorem entryKey_colon (h : ':' ∈ key.toList) :
    entryKey (beforeColon key) (afterColon key) = key := by
  refine String.toList_inj.mp ?_
  rw [toList_entryKey, beforeColon, afterColon, String.toList_ofList, String.toList_ofList]
  generalize key.toList = cs at h
  induction cs with
  | nil => cases h
  | cons c cs ih =>
    by_cases hc : c = ':'
    · simp [hc]
    · have hin : ':' ∈ cs := (List.mem_cons.mp h).resolve_left (Ne.symm hc)
      simpa [hc] using ih hin

/-- A tombstone moves when what stands before its first colon has another canonical id. -/
theorem rekeyed_ne_iff : rekeyed resolve key ≠ key ↔ ':' ∈ key.toList ∧
    ∃ canon, resolve (beforeColon key) = some canon ∧ canon ≠ beforeColon key := by
  rw [rekeyed]
  split
  · next hcolon =>
    rw [and_iff_right hcolon]
    conv_lhs => rhs; rw [← entryKey_colon hcolon]
    cases hres : resolve (beforeColon key) with
    | none =>
      rw [Option.getD_none]
      exact iff_of_false (fun h => h rfl) nofun
    | some canon =>
      rw [Option.getD_some]
      constructor
      · exact fun h => ⟨canon, rfl, fun heq => h (by rw [heq])⟩
      · rintro ⟨_, ⟨⟩, hne⟩ heq
        exact hne (entryKey_left_inj heq)
  · next hcolon => exact iff_of_false (fun h => h rfl) fun h => hcolon h.1

theorem moveTombstone_of_ne (h : rekeyed resolve key ≠ key) (c : Change) :
    moveTombstone resolve c key = .changed { c.memory with
      deletedIds := (c.memory.deletedIds.erase key).insert (rekeyed resolve key) } := by
  obtain ⟨hcolon, canon, hres, hne⟩ := rekeyed_ne_iff.mp h
  rw [rekeyed, if_pos hcolon, hres, Option.getD_some]
  rw [beforeColon] at hres hne
  simp only [moveTombstone, if_pos hcolon, hres, if_neg hne]
  rfl

theorem moveTombstone_of_eq (h : rekeyed resolve key = key) (c : Change) :
    moveTombstone resolve c key = c := by
  have hstays := fun hmoves => (@rekeyed_ne_iff resolve key).mpr hmoves h
  simp only [moveTombstone]
  split
  · next hcolon =>
    split
    · rfl
    · next canon hres =>
      rw [if_pos]
      exact by_contra fun hne => hstays ⟨hcolon, canon, hres, hne⟩
  · rfl

/-- What is found of the tombstones under a key. -/
def hides (ids : ExtTreeSet String) (key : String) : Option Unit :=
  if key ∈ ids then some () else none

theorem hides_eq_some {ids : ExtTreeSet String} : hides ids key = some () ↔ key ∈ ids := by
  rw [hides]
  split
  · next h => exact iff_of_true rfl h
  · next h => exact iff_of_false nofun h

theorem hides_move (ids : ExtTreeSet String) (src dst : String) :
    hides ((ids.erase src).insert dst) = Move.apply (hides ids) ⟨src, dst, ()⟩ := by
  funext k
  simp only [hides, Move.apply, ExtTreeSet.mem_insert, ExtTreeSet.mem_erase, Ne,
    Std.compare_eq_iff_eq, eq_comm (a := k)]
  by_cases hdst : dst = k
  · simp only [hdst, true_or, if_true]
  · by_cases hsrc : src = k
    · simp only [hdst, hsrc, not_true, false_and, or_self, if_true, if_false]
    · simp only [hdst, hsrc, not_false_eq_true, true_and, false_or, if_false]

theorem foldl_moveEntry (l : List RoomEntry) (c : Change) :
    (∀ x : String, (l.foldl (moveEntry resolve) c).memory.rooms[x]? =
      moveAll (fun k => c.memory.rooms[k]?) (l.filterMap (rowMove resolve)) x) ∧
    (l.foldl (moveEntry resolve) c).memory.deletedIds = c.memory.deletedIds ∧
    (l.foldl (moveEntry resolve) c).memory.spaces = c.memory.spaces := by
  induction l generalizing c with
  | nil => exact ⟨fun _ => rfl, rfl, rfl⟩
  | cons e l ih =>
    rw [List.foldl_cons]
    by_cases h : Misfiled resolve e
    · have hmove : rowMove resolve e =
          some ⟨e.key, (relabelled resolve e).key, relabelled resolve e⟩ := if_pos h
      rw [moveEntry_of_misfiled h, List.filterMap_cons_some hmove]
      obtain ⟨hrooms, hids, hspaces⟩ := ih (.changed { c.memory with
        rooms := (c.memory.rooms.erase e.key).insert (relabelled resolve e).key
          (relabelled resolve e) })
      refine ⟨fun x => ?_, hids, hspaces⟩
      rw [hrooms, moveAll_cons]
      congr 1
      funext k
      simp only [Change.memory, ExtTreeMap.getElem?_insert, ExtTreeMap.getElem?_erase,
        Std.compare_eq_iff_eq, Move.apply, eq_comm (a := k)]
    · have hmove : rowMove resolve e = none := if_neg h
      rw [moveEntry_of_filed h, List.filterMap_cons_none hmove]
      exact ih c

theorem foldl_moveTombstone (l : List String) (c : Change) :
    (∀ x, hides (l.foldl (moveTombstone resolve) c).memory.deletedIds x =
      moveAll (hides c.memory.deletedIds) (l.filterMap (tombstoneMove resolve)) x) ∧
    (l.foldl (moveTombstone resolve) c).memory.rooms = c.memory.rooms ∧
    (l.foldl (moveTombstone resolve) c).memory.spaces = c.memory.spaces := by
  induction l generalizing c with
  | nil => exact ⟨fun _ => rfl, rfl, rfl⟩
  | cons key l ih =>
    rw [List.foldl_cons]
    by_cases h : rekeyed resolve key ≠ key
    · have hmove : tombstoneMove resolve key = some ⟨key, rekeyed resolve key, ()⟩ := if_pos h
      rw [moveTombstone_of_ne h, List.filterMap_cons_some hmove]
      obtain ⟨hids, hrooms, hspaces⟩ := ih (.changed { c.memory with
        deletedIds := (c.memory.deletedIds.erase key).insert (rekeyed resolve key) })
      refine ⟨fun x => ?_, hrooms, hspaces⟩
      rw [hids, moveAll_cons, ← hides_move]
      rfl
    · have hmove : tombstoneMove resolve key = none := if_neg h
      rw [moveTombstone_of_eq (not_not.mp h), List.filterMap_cons_none hmove]
      exact ih c

variable (resolve m)

/-- The moves of a run over the rows, and over the tombstones. -/
def rowMoves (v : VisitOrder) : List (Move RoomEntry) :=
  (v.order (values m.rooms)).filterMap (rowMove resolve)

def tombstoneMoves (v : VisitOrder) : List (Move Unit) :=
  (v.order m.deletedIds.toList).filterMap (tombstoneMove resolve)

/-- Memory under the canonical ids. -/
def normalized (v : VisitOrder) : Rooms :=
  (m.normalizeSupernodeIds resolve v).memory

theorem rooms_normalized (v : VisitOrder) (x : String) :
    (m.normalized resolve v).rooms[x]? =
      moveAll (fun k => m.rooms[k]?) (m.rowMoves resolve v) x := by
  rw [normalized, normalizeSupernodeIds, (foldl_moveTombstone _ _).2.1, (foldl_moveEntry _ _).1]
  rfl

theorem hides_normalized (v : VisitOrder) (x : String) :
    hides (m.normalized resolve v).deletedIds x =
      moveAll (hides m.deletedIds) (m.tombstoneMoves resolve v) x := by
  rw [normalized, normalizeSupernodeIds, (foldl_moveTombstone _ _).1, (foldl_moveEntry _ _).2.1]
  rfl

theorem spaces_normalized (v : VisitOrder) : (m.normalized resolve v).spaces = m.spaces := by
  rw [normalized, normalizeSupernodeIds, (foldl_moveTombstone _ _).2.2, (foldl_moveEntry _ _).2.2]
  rfl

variable {resolve m}

theorem mem_rowMoves {v : VisitOrder} {a : Move RoomEntry} : a ∈ m.rowMoves resolve v ↔
    ∃ e ∈ values m.rooms, Misfiled resolve e ∧
      a = ⟨e.key, (relabelled resolve e).key, relabelled resolve e⟩ := by
  rw [rowMoves, List.mem_filterMap]
  refine exists_congr fun e => ?_
  rw [(v.perm _).mem_iff, rowMove, Option.ite_none_right_eq_some, Option.some_inj, eq_comm (a := a)]

theorem mem_tombstoneMoves {v : VisitOrder} {a : Move Unit} : a ∈ m.tombstoneMoves resolve v ↔
    ∃ key ∈ m.deletedIds, rekeyed resolve key ≠ key ∧ a = ⟨key, rekeyed resolve key, ()⟩ := by
  rw [tombstoneMoves, List.mem_filterMap]
  refine exists_congr fun key => ?_
  rw [(v.perm _).mem_iff, ExtTreeSet.mem_toList, tombstoneMove, Option.ite_none_right_eq_some,
    Option.some_inj, eq_comm (a := a)]

theorem exists_visited_last {α : Type} {l : List α} {a : α} (h : a ∈ l) :
    ∃ (v : VisitOrder) (before : List α), v.order l = before ++ [a] := by
  obtain ⟨s, t, rfl⟩ := List.append_of_mem h
  refine ⟨⟨fun l => l.rotate (s.length + 1), fun l => List.rotate_perm l _⟩, t ++ s, ?_⟩
  have hlen : s.length + 1 = (s ++ [a]).length := by rw [List.length_append, List.length_singleton]
  have hsplit : s ++ a :: t = (s ++ [a]) ++ t := by rw [List.append_assoc, List.singleton_append]
  change (s ++ a :: t).rotate (s.length + 1) = t ++ s ++ [a]
  rw [hlen, hsplit, List.rotate_append_length_eq, List.append_assoc]

end Moves

/-! ## What normalising keeps -/

/-- What one row knows, the other knows. -/
structure Covers (e e' : RoomEntry) : Prop where
  isCreator : e.isCreator = true → e'.isCreator = true
  inviteToken : e.inviteToken ≠ "" → e'.inviteToken ≠ ""
  spaceId : e.spaceId ≠ "" → e'.spaceId ≠ ""
  parentId : e.parentId ≠ "" → e'.parentId ≠ ""

variable (resolve : String → Option String) (m : Rooms)

/-- Normalising loses nothing, whatever order the maps are visited in. -/
structure Normalizes : Prop where
  rows : ∀ v, ∀ e ∈ values m.rooms, ∃ e',
    (m.normalized resolve v).rooms[(relabelled resolve e).key]? = some e' ∧
      e'.supernodeId = (relabelled resolve e).supernodeId ∧ e'.roomId = e.roomId ∧ Covers e e'
  only : ∀ v (k : String) e', (m.normalized resolve v).rooms[k]? = some e' →
    k = e'.key ∧ ∃ e ∈ values m.rooms,
      e'.supernodeId = (relabelled resolve e).supernodeId ∧ e'.roomId = e.roomId
  tombstones : ∀ v sn id, m.isHiddenFromSidebar sn id = true →
    (m.normalized resolve v).isHiddenFromSidebar ((resolve sn).getD sn) id = true
  alike : ∀ v v', m.normalized resolve v = m.normalized resolve v'
  again : ∀ v v', (m.normalized resolve v).normalizeSupernodeIds resolve v' =
    .kept (m.normalized resolve v)

/-- No row and no tombstone gets in the way of another. -/
structure Harmless : Prop where
  /-- No row leaves a key that another comes to. -/
  free : ∀ e ∈ values m.rooms, ∀ e' ∈ values m.rooms, Misfiled resolve e → Misfiled resolve e' →
    e.key ≠ (relabelled resolve e').key
  /-- Rows that come to one key are the same there. -/
  agree : ∀ e ∈ values m.rooms, ∀ e' ∈ values m.rooms, Misfiled resolve e → Misfiled resolve e' →
    (relabelled resolve e).key = (relabelled resolve e').key →
      relabelled resolve e = relabelled resolve e'
  /-- A row that comes to where another is knows what that one knows. -/
  covers : ∀ e ∈ values m.rooms, ∀ e' ∈ values m.rooms, Misfiled resolve e → ¬ Misfiled resolve e' →
    (relabelled resolve e).key = e'.key →
      (relabelled resolve e).supernodeId = e'.supernodeId ∧ e.roomId = e'.roomId ∧
        Covers e' (relabelled resolve e)
  /-- Wherever the id of a hidden room's supernode ends, some tombstone comes to its key. -/
  tombstones : ∀ sn id, m.isHiddenFromSidebar sn id = true →
    ∃ key ∈ m.deletedIds, rekeyed resolve key = entryKey ((resolve sn).getD sn) id
  /-- What stands before the first colon is not resolved any further. -/
  settled : ∀ key ∈ m.deletedIds, rekeyed resolve (rekeyed resolve key) = rekeyed resolve key

section Normalizes

variable {resolve : String → Option String} {m : Rooms} {e : RoomEntry} {key : String}
  {v : VisitOrder}

theorem relabelled_of_filed (h : ¬ Misfiled resolve e) : relabelled resolve e = e :=
  not_not.mp h

theorem key_ne_of_misfiled (h : Misfiled resolve e) : e.key ≠ (relabelled resolve e).key := by
  intro heq
  have hsame : e.supernodeId = (resolve e.supernodeId).getD e.supernodeId :=
    @entryKey_left_inj _ _ e.roomId heq
  exact h (by rw [relabelled, ← hsame])

theorem Harmless.free_moves (h : m.Harmless resolve) (v : VisitOrder) :
    ∀ a ∈ m.rowMoves resolve v, ∀ b ∈ m.rowMoves resolve v, a.src ≠ b.dst := by
  intro a ha b hb
  obtain ⟨e, he, hmis, rfl⟩ := mem_rowMoves.mp ha
  obtain ⟨e', he', hmis', rfl⟩ := mem_rowMoves.mp hb
  exact h.free e he e' he' hmis hmis'

theorem Harmless.agree_moves (h : m.Harmless resolve) (v : VisitOrder) :
    ∀ a ∈ m.rowMoves resolve v, ∀ b ∈ m.rowMoves resolve v, a.dst = b.dst → a.value = b.value := by
  intro a ha b hb
  obtain ⟨e, he, hmis, rfl⟩ := mem_rowMoves.mp ha
  obtain ⟨e', he', hmis', rfl⟩ := mem_rowMoves.mp hb
  exact h.agree e he e' he' hmis hmis'

theorem Harmless.free_tombstones (h : m.Harmless resolve) (v : VisitOrder) :
    ∀ a ∈ m.tombstoneMoves resolve v, ∀ b ∈ m.tombstoneMoves resolve v, a.src ≠ b.dst := by
  intro a ha b hb heq
  obtain ⟨key, hkey, hmoves, rfl⟩ := mem_tombstoneMoves.mp ha
  obtain ⟨key', hkey', -, rfl⟩ := mem_tombstoneMoves.mp hb
  have hsettled := h.settled key' hkey'
  rw [← show key = rekeyed resolve key' from heq] at hsettled
  exact hmoves hsettled

theorem Harmless.lookup_misfiled (h : m.Harmless resolve) (v : VisitOrder)
    (he : e ∈ values m.rooms) (hmis : Misfiled resolve e) :
    (m.normalized resolve v).rooms[(relabelled resolve e).key]? = some (relabelled resolve e) := by
  rw [rooms_normalized]
  exact moveAll_dst (h.free_moves v) (h.agree_moves v) (mem_rowMoves.mpr ⟨e, he, hmis, rfl⟩)

theorem of_lookup (hm : FiledBy RoomEntry.key m.rooms) {k : String} {e' : RoomEntry}
    (h : (m.normalized resolve v).rooms[k]? = some e') :
    (∃ e ∈ values m.rooms, Misfiled resolve e ∧ (relabelled resolve e).key = k) ∨
      (e' ∈ values m.rooms ∧ ¬ Misfiled resolve e' ∧ e'.key = k) := by
  rw [rooms_normalized] at h
  rcases of_moveAll h with ⟨a, ha, hdst⟩ | ⟨hnot, hthere⟩
  · obtain ⟨e, he, hmis, rfl⟩ := mem_rowMoves.mp ha
    exact .inl ⟨e, he, hmis, hdst⟩
  · have hkey : e'.key = k := hm k e' hthere
    have hin : e' ∈ values m.rooms := mem_values.mpr ⟨k, hthere⟩
    refine .inr ⟨hin, fun hmis => ?_, hkey⟩
    exact (hnot _ (mem_rowMoves.mpr ⟨e', hin, hmis, rfl⟩)).2 hkey.symm

theorem of_hides {k : String} (h : k ∈ (m.normalized resolve v).deletedIds) :
    ∃ key ∈ m.deletedIds, rekeyed resolve key = k := by
  rw [← hides_eq_some, hides_normalized] at h
  rcases of_moveAll h with ⟨a, ha, hdst⟩ | ⟨hnot, hthere⟩
  · obtain ⟨key, hkey, -, rfl⟩ := mem_tombstoneMoves.mp ha
    exact ⟨key, hkey, hdst⟩
  · have hin := hides_eq_some.mp hthere
    refine ⟨k, hin, by_contra fun hmoves => ?_⟩
    exact (hnot _ (mem_tombstoneMoves.mpr ⟨k, hin, hmoves, rfl⟩)).2 rfl

theorem Harmless.hides_rekeyed (h : m.Harmless resolve) (v : VisitOrder)
    (hkey : key ∈ m.deletedIds) : rekeyed resolve key ∈ (m.normalized resolve v).deletedIds := by
  rw [← hides_eq_some, hides_normalized]
  by_cases hmoves : rekeyed resolve key = key
  · rw [hmoves]
    refine moveAll_some (fun a ha hsrc => ?_) (fun _ _ _ => rfl) (hides_eq_some.mpr hkey)
    obtain ⟨key', -, hmoves', rfl⟩ := mem_tombstoneMoves.mp ha
    exact hmoves' (by rw [show key' = key from hsrc, hmoves])
  · exact moveAll_dst (h.free_tombstones v) (fun _ _ _ _ _ => rfl)
      (mem_tombstoneMoves.mpr ⟨key, hkey, hmoves, rfl⟩)

theorem foldl_stays {α : Type} {f : Change → α → Change} {l : List α} {c : Change}
    (h : ∀ a ∈ l, ∀ c, f c a = c) : l.foldl f c = c := by
  induction l generalizing c with
  | nil => rfl
  | cons a l ih =>
    rw [List.foldl_cons, h a List.mem_cons_self]
    exact ih fun b hb => h b (List.mem_cons_of_mem a hb)

theorem normalize_of_filed (hrows : ∀ e ∈ values m.rooms, ¬ Misfiled resolve e)
    (hids : ∀ key ∈ m.deletedIds, rekeyed resolve key = key) (v : VisitOrder) :
    m.normalizeSupernodeIds resolve v = .kept m := by
  rw [normalizeSupernodeIds, foldl_stays fun e he c => moveEntry_of_filed (hrows e ?_) c,
    foldl_stays fun key hkey c => moveTombstone_of_eq (hids key ?_) c]
  · exact ExtTreeSet.mem_toList.mp ((v.perm _).mem_iff.mp hkey)
  · exact (v.perm _).mem_iff.mp he

theorem Covers.refl (e : RoomEntry) : Covers e e :=
  ⟨id, id, id, id⟩

theorem covers_relabelled (e : RoomEntry) : Covers e (relabelled resolve e) :=
  ⟨id, id, id, id⟩

theorem Harmless.rows (h : m.Harmless resolve) (hm : FiledBy RoomEntry.key m.rooms)
    (v : VisitOrder) (he : e ∈ values m.rooms) : ∃ e',
      (m.normalized resolve v).rooms[(relabelled resolve e).key]? = some e' ∧
        e'.supernodeId = (relabelled resolve e).supernodeId ∧ e'.roomId = e.roomId ∧ Covers e e' := by
  by_cases hmis : Misfiled resolve e
  · exact ⟨_, h.lookup_misfiled v he hmis, rfl, rfl, covers_relabelled e⟩
  · rw [relabelled_of_filed hmis]
    by_cases hcomes : ∃ e₀ ∈ values m.rooms, Misfiled resolve e₀ ∧ (relabelled resolve e₀).key = e.key
    · obtain ⟨e₀, he₀, hmis₀, hkey⟩ := hcomes
      obtain ⟨hsn, hid, hcovers⟩ := h.covers e₀ he₀ e he hmis₀ hmis hkey
      exact ⟨relabelled resolve e₀, hkey ▸ h.lookup_misfiled v he₀ hmis₀, hsn, hid, hcovers⟩
    · refine ⟨e, ?_, rfl, rfl, .refl e⟩
      rw [rooms_normalized, moveAll_of_ne fun a ha => ?_]
      · exact hm.mem_values_iff.mp he
      · obtain ⟨e₀, he₀, hmis₀, rfl⟩ := mem_rowMoves.mp ha
        refine ⟨fun hdst => hcomes ⟨e₀, he₀, hmis₀, hdst.symm⟩, fun hsrc => ?_⟩
        -- no two rows are filed under one key
        have hsame := hm.mem_values_iff.mp he₀
        rw [← show e.key = e₀.key from hsrc, hm.mem_values_iff.mp he] at hsame
        exact hmis (Option.some_inj.mp hsame ▸ hmis₀)

theorem Harmless.only (h : m.Harmless resolve) (hm : FiledBy RoomEntry.key m.rooms) {k : String}
    {e' : RoomEntry} (hfound : (m.normalized resolve v).rooms[k]? = some e') :
    k = e'.key ∧ ∃ e ∈ values m.rooms,
      e'.supernodeId = (relabelled resolve e).supernodeId ∧ e'.roomId = e.roomId := by
  rcases of_lookup hm hfound with ⟨e, he, hmis, rfl⟩ | ⟨hin, hfiled, rfl⟩
  · have hthere := h.lookup_misfiled v he hmis
    rw [hfound] at hthere
    rw [Option.some_inj.mp hthere]
    exact ⟨rfl, e, he, rfl, rfl⟩
  · exact ⟨rfl, e', hin, by rw [relabelled_of_filed hfiled], rfl⟩

theorem Harmless.normalizes (h : m.Harmless resolve) (hm : FiledBy RoomEntry.key m.rooms)
    (hidem : ∀ id, (resolve ((resolve id).getD id)).getD ((resolve id).getD id) = (resolve id).getD id) :
    m.Normalizes resolve where
  rows v e he := h.rows hm v he
  only v k e' hfound := h.only hm hfound
  tombstones v sn id hhidden := by
    obtain ⟨key, hkey, heq⟩ := h.tombstones sn id hhidden
    have hin := h.hides_rekeyed v hkey
    rw [heq] at hin
    exact ExtTreeSet.mem_iff_contains.mp hin
  alike v v' := by
    have hrooms : (m.normalized resolve v).rooms = (m.normalized resolve v').rooms := by
      refine ExtTreeMap.ext_getElem? fun x => ?_
      rw [rooms_normalized, rooms_normalized, moveAll_perm (h.free_moves v) (h.agree_moves v)]
      exact ((v.perm _).trans (v'.perm _).symm).filterMap _
    have hids : (m.normalized resolve v).deletedIds = (m.normalized resolve v').deletedIds := by
      refine ExtTreeSet.ext_mem fun x => ?_
      rw [← hides_eq_some, ← hides_eq_some, hides_normalized, hides_normalized,
        moveAll_perm (h.free_tombstones v) (fun _ _ _ _ _ => rfl)]
      exact ((v.perm _).trans (v'.perm _).symm).filterMap _
    have hspaces := (spaces_normalized resolve m v).trans (spaces_normalized resolve m v').symm
    generalize m.normalized resolve v = a at hrooms hids hspaces
    generalize m.normalized resolve v' = b at hrooms hids hspaces
    obtain ⟨rooms, ids, spaces⟩ := a
    cases hrooms
    cases hids
    cases hspaces
    rfl
  again v v' := by
    refine normalize_of_filed (fun e' he' hmis => ?_) (fun key hkey => ?_) v'
    · obtain ⟨k, hfound⟩ := mem_values.mp he'
      obtain ⟨-, e, -, hsn, -⟩ := h.only hm hfound
      obtain ⟨canon, hres, hne⟩ := misfiled_iff.mp hmis
      have hcanon := hidem e.supernodeId
      rw [show (resolve e.supernodeId).getD e.supernodeId = e'.supernodeId from hsn.symm, hres,
        Option.getD_some] at hcanon
      exact hne hcanon
    · obtain ⟨key₀, hkey₀, rfl⟩ := of_hides hkey
      exact h.settled key₀ hkey₀

theorem exists_last_row (he : e ∈ values m.rooms) (hmis : Misfiled resolve e) : ∃ v,
    (m.normalized resolve v).rooms[(relabelled resolve e).key]? = some (relabelled resolve e) ∧
      (m.normalized resolve v).rooms[e.key]? = none := by
  obtain ⟨v, before, hlast⟩ := exists_visited_last he
  have hmoves : m.rowMoves resolve v = before.filterMap (rowMove resolve) ++
      [⟨e.key, (relabelled resolve e).key, relabelled resolve e⟩] := by
    have hmove : rowMove resolve e =
        some ⟨e.key, (relabelled resolve e).key, relabelled resolve e⟩ := if_pos hmis
    rw [rowMoves, hlast, List.filterMap_append, List.filterMap_cons_some hmove, List.filterMap_nil]
  refine ⟨v, ?_, ?_⟩
  · rw [rooms_normalized, hmoves, moveAll_concat, Move.apply, if_pos rfl]
  · rw [rooms_normalized, hmoves, moveAll_concat, Move.apply, if_neg (key_ne_of_misfiled hmis),
      if_pos rfl]

theorem Normalizes.harmless (h : m.Normalizes resolve) : m.Harmless resolve where
  free e he e' he' hmis hmis' hkey := by
    obtain ⟨v, -, hgone⟩ := exists_last_row he hmis
    obtain ⟨v', hfound, -⟩ := exists_last_row he' hmis'
    rw [h.alike v v', hkey, hfound] at hgone
    cases hgone
  agree e he e' he' hmis hmis' hkey := by
    obtain ⟨v, hfound, -⟩ := exists_last_row he hmis
    obtain ⟨v', hfound', -⟩ := exists_last_row he' hmis'
    rw [h.alike v v', hkey, hfound'] at hfound
    exact (Option.some_inj.mp hfound).symm
  covers e he e' he' hmis hfiled hkey := by
    obtain ⟨v, hfound, -⟩ := exists_last_row he hmis
    obtain ⟨e'', hthere, hsn, hid, hcovers⟩ := h.rows v e' he'
    rw [relabelled_of_filed hfiled] at hthere hsn
    rw [hkey, hthere] at hfound
    obtain rfl := Option.some_inj.mp hfound
    exact ⟨hsn, hid, hcovers⟩
  tombstones sn id hhidden := by
    have hstill := h.tombstones ⟨fun l => l, fun l => .refl l⟩ sn id hhidden
    exact of_hides (ExtTreeSet.mem_iff_contains.mpr hstill)
  settled key hkey := by
    by_contra hmoves
    have hfirst : rekeyed resolve key ≠ key := fun heq => hmoves (by rw [heq, heq])
    -- the tombstone is moved last, and its new key is visited last by the next run
    obtain ⟨v, before, hlast⟩ := exists_visited_last (ExtTreeSet.mem_toList.mpr hkey)
    have hmove : tombstoneMove resolve key = some ⟨key, rekeyed resolve key, ()⟩ := if_pos hfirst
    have hin : rekeyed resolve key ∈ (m.normalized resolve v).deletedIds := by
      rw [← hides_eq_some, hides_normalized, tombstoneMoves, hlast, List.filterMap_append,
        List.filterMap_cons_some hmove, List.filterMap_nil, moveAll_concat, Move.apply, if_pos rfl]
    obtain ⟨v', before', hlast'⟩ := exists_visited_last (ExtTreeSet.mem_toList.mpr hin)
    have hkept := h.again v v'
    rw [normalizeSupernodeIds, hlast', List.foldl_append, List.foldl_cons, List.foldl_nil,
      moveTombstone_of_ne hmoves] at hkept
    cases hkept

end Normalizes

end Rooms

/-! ## Rows are filed under their own keys -/

section Filed

variable {m : Rooms}

theorem filedBy_store (h : FiledBy RoomEntry.key m.rooms) (entry : RoomEntry) :
    FiledBy RoomEntry.key (m.store entry).memory.rooms := by
  rcases Rooms.store_cases m entry with ⟨-, heq⟩ | ⟨-, heq⟩
  · rw [heq]
    exact h.insert entry
  · rw [heq]
    exact h

theorem filedBy_mergeInMemory (h : FiledBy RoomEntry.key m.rooms) (entry : RoomEntry) :
    FiledBy RoomEntry.key (m.mergeInMemory entry).memory.rooms := by
  rcases Rooms.mergeInMemory_cases m entry with ⟨-, heq⟩ | ⟨-, -, heq⟩ | ⟨-, -, heq⟩
  · rwa [heq]
  · rwa [heq]
  · rw [heq]
    exact filedBy_store h _

theorem filedBy_upsertFromRemote (h : FiledBy RoomEntry.key m.rooms) (entry : RoomEntry) :
    FiledBy RoomEntry.key (m.upsertFromRemote entry).memory.rooms := by
  rw [Rooms.upsertFromRemote]
  split
  · exact h
  · exact filedBy_mergeInMemory h entry

theorem filedBy_afterLog (h : FiledBy RoomEntry.key m.rooms) (supernodeId roomId : String) :
    FiledBy RoomEntry.key (m.afterLog supernodeId roomId).memory.rooms := by
  rw [Rooms.afterLog]
  split
  · exact h
  · exact h

theorem filedBy_update (h : FiledBy RoomEntry.key m.rooms) {k : String} {e e' : RoomEntry}
    (he : m.rooms[k]? = some e) (hkey : e'.key = e.key) :
    FiledBy RoomEntry.key (m.rooms.insert k e') := by
  have hplace : e'.key = k := hkey.trans (h k e he)
  rw [← hplace]
  exact h.insert e'

theorem filedBy_moveEntry {c : Change} (h : FiledBy RoomEntry.key c.memory.rooms)
    (resolve : String → Option String) (e : RoomEntry) :
    FiledBy RoomEntry.key (Rooms.moveEntry resolve c e).memory.rooms := by
  by_cases hmis : Rooms.Misfiled resolve e
  · rw [Rooms.moveEntry_of_misfiled hmis]
    exact (h.erase e.key).insert _
  · rwa [Rooms.moveEntry_of_filed hmis]

theorem filedBy_apply (P : Platform) (h : FiledBy RoomEntry.key m.rooms) (op : RoomStoreOp) :
    FiledBy RoomEntry.key (op.apply P m).memory.rooms := by
  cases op with
  | add entry =>
    rw [RoomStoreOp.apply, Rooms.add]
    split
    · exact h
    · exact filedBy_store h entry
  | upsert entry => exact filedBy_mergeInMemory h entry
  | upsertFromRemote entry => exact filedBy_upsertFromRemote h entry
  | upsertManyFromRemote entries =>
    have hend : Rooms.SameEnd (m.upsertManyFromRemote entries) (m.upsertEach entries) :=
      Rooms.sameEnd_foldl ⟨rfl, Iff.rfl⟩ entries
    rw [RoomStoreOp.apply, hend.1]
    exact Rooms.memory_foldl_inv (c := .kept m) (fun m => FiledBy RoomEntry.key m.rooms)
      (fun _ e hm => filedBy_upsertFromRemote hm e) h entries
  | remove supernodeId roomId => exact filedBy_afterLog (h.erase _) supernodeId roomId
  | hideFromSidebar supernodeId roomId =>
    exact filedBy_afterLog
      (m := { m with deletedIds := m.deletedIds.insert (entryKey supernodeId roomId) }) h
      supernodeId roomId
  | unhideFromSidebar supernodeId roomId =>
    rw [RoomStoreOp.apply, Rooms.unhideFromSidebar]
    split
    · exact filedBy_afterLog
        (m := { m with deletedIds := m.deletedIds.erase (entryKey supernodeId roomId) }) h
        supernodeId roomId
    · exact h
  | setSpaceLinkage supernodeId roomId parentId spaceId =>
    rw [RoomStoreOp.apply, Rooms.setSpaceLinkage]
    split
    · exact h
    · next entry hentry =>
      split
      · exact h
      · exact filedBy_update h hentry rfl
  | adoptRoomIntoSpace ownerPub supernodeId roomId roomName roomType parentNodeId =>
    rw [RoomStoreOp.apply, Rooms.adoptRoomIntoSpace]
    dsimp only [Change.memory]
    split
    · exact h
    · next entry hentry => exact filedBy_update h hentry rfl
  | normalizeSupernodeIds peerStore order v =>
    rw [RoomStoreOp.apply, Rooms.normalizeSupernodeIds, (Rooms.foldl_moveTombstone _ _).2.1]
    suffices hfold : ∀ (l : List RoomEntry) (c : Change), FiledBy RoomEntry.key c.memory.rooms →
        FiledBy RoomEntry.key (l.foldl (Rooms.moveEntry _) c).memory.rooms from hfold _ _ h
    intro l
    induction l with
    | nil => exact fun _ hc => hc
    | cons e l ih => exact fun c hc => ih _ (filedBy_moveEntry hc _ e)

theorem filedBy_run {Sealed : Type} (C : StoreCodec Sealed) (P : Platform) {file : Option Sealed}
    {m : Rooms} (hopen : RoomStore.load C file = some m)
    (is : List (RoomStoreOp × SaveEnv Sealed)) :
    FiledBy RoomEntry.key (run (RoomStore.step C P) ⟨m, file⟩ is).memory.rooms := by
  refine run_inv (fun s : RoomStore Sealed => FiledBy RoomEntry.key s.memory.rooms)
    (RoomStore.sound_load C hopen).rooms fun s i hs => ?_
  rw [RoomStore.memory_step]
  exact filedBy_apply P hs i.1

end Filed

/-! ## The stores together -/

/-- The resolver has one answer, and normalising with it loses nothing. -/
def LosesNothing (peers : PeerStore) (m : Rooms) : Prop :=
  (∀ order order' id, peers.Visits order → peers.Visits order' →
    peers.resolveSupernodeIdentityPub order id = peers.resolveSupernodeIdentityPub order' id) ∧
  ∀ order, peers.Visits order → m.Normalizes (peers.resolveSupernodeIdentityPub order)

theorem losesNothing_of_filed (peers : PeerStore) (m : Rooms) (hm : FiledBy RoomEntry.key m.rooms) :
    LosesNothing peers m ↔ peers.OneIdentity ∧
      m.Harmless (peers.resolveSupernodeIdentityPub peers.records.keys) := by
  have hkeys : peers.Visits peers.records.keys := .refl _
  rw [LosesNothing, ← PeerStore.oneIdentity_iff]
  refine and_congr_right fun hone => ⟨fun h => (h _ hkeys).harmless, fun h order horder => ?_⟩
  have hsame : peers.resolveSupernodeIdentityPub order =
      peers.resolveSupernodeIdentityPub peers.records.keys := by
    funext id
    exact PeerStore.oneIdentity_iff.mp hone _ _ id horder hkeys
  rw [hsame]
  exact h.normalizes hm (PeerStore.canonical_canonical hone hkeys)

/-- Normalising what a store holds loses nothing exactly when an id has one identity, and no
row and no tombstone gets in the way of another. -/
theorem losesNothing_iff {Sealed : Type} (C : StoreCodec Sealed) (P : Platform)
    {file : Option Sealed} {m : Rooms} (hopen : RoomStore.load C file = some m)
    (is : List (RoomStoreOp × SaveEnv Sealed)) (peers : PeerStore) :
    LosesNothing peers (run (RoomStore.step C P) ⟨m, file⟩ is).memory ↔ peers.OneIdentity ∧
      (run (RoomStore.step C P) ⟨m, file⟩ is).memory.Harmless
        (peers.resolveSupernodeIdentityPub peers.records.keys) :=
  losesNothing_of_filed peers _ (filedBy_run C P hopen is)

/-- A supernode, by its two ids. -/
def knownSupernode : PeerStore :=
  PeerStore.upsert ⟨∅⟩
    { PeerRecord.default with peerId := "5e1f", identityPub := "xyz", isSupernode := true }

/-- One room is added, and nothing is in the way of it. -/
theorem losesNothing_lobby :
    RoomStore.load RoomStore.plainCodec none = some .empty ∧
    (LosesNothing knownSupernode (run (RoomStore.step RoomStore.plainCodec Platform.symbolic)
        ⟨.empty, none⟩ [(.add RoomStore.lobby, RoomStore.saving none)]).memory ↔
      knownSupernode.OneIdentity ∧
        (run (RoomStore.step RoomStore.plainCodec Platform.symbolic) ⟨.empty, none⟩
          [(.add RoomStore.lobby, RoomStore.saving none)]).memory.Harmless
            (knownSupernode.resolveSupernodeIdentityPub knownSupernode.records.keys)) :=
  ⟨rfl, losesNothing_iff RoomStore.plainCodec Platform.symbolic rfl _ knownSupernode⟩

/-- The room under the identity of its supernode, where it is owned, and under the peer id. -/
def ownedRow : RoomEntry :=
  { RoomStore.lobby with supernodeId := "xyz", isCreator := true }

def aliasRow : RoomEntry :=
  { RoomStore.lobby with supernodeId := "5e1f" }

def twoRows : Rooms :=
  { Rooms.empty with
    rooms := (Rooms.empty.rooms.insert aliasRow.key aliasRow).insert ownedRow.key ownedRow }

/-- The row of the peer id takes the place of the row that is owned. -/
theorem ownership_lost : ¬ LosesNothing knownSupernode twoRows := by
  intro h
  have hfiled : FiledBy RoomEntry.key twoRows.rooms := (filedBy_empty.insert aliasRow).insert ownedRow
  have hharmless := ((losesNothing_of_filed _ _ hfiled).mp h).2
  have howned : ownedRow ∈ values twoRows.rooms :=
    mem_values.mpr ⟨ownedRow.key, ExtTreeMap.getElem?_insert_self⟩
  have halias : aliasRow ∈ values twoRows.rooms := by
    refine mem_values.mpr ⟨aliasRow.key, ?_⟩
    rw [twoRows, ExtTreeMap.getElem?_insert, if_neg (by decide +kernel)]
    exact ExtTreeMap.getElem?_insert_self
  have hcovers := hharmless.covers aliasRow halias ownedRow howned (by decide +kernel)
    (by decide +kernel) (by decide +kernel)
  exact absurd (hcovers.2.2.isCreator rfl) (by decide)

end ConquerD.Client
