import ConquerD.Client.Verify.SupernodeRows

/-!
# Invited peers and the records of others

An invited peer takes the place of every record of its identity. Where its peer id is
taken by another identity, it is filed under its identity instead, without a look at who
is filed there. No two records of a run have one identity, so that a search by identity
has one answer.
-/

namespace ConquerD.Client

open Std (ExtTreeMap)
open Lib.Keyed Lib.Run

namespace PeerStore

variable (store : PeerStore) (record : PeerRecord)

/-! ## One invite -/

/-- The key is held by another identity. -/
def HeldByOther (key : String) : Prop :=
  ∃ r, store.records[key]? = some r ∧ r.identityPub ≠ record.identityPub

/-- What is expected of an invite. -/
structure KeepsApart : Prop where
  others : ∀ (k : String) r, store.records[k]? = some r → r.identityPub ≠ record.identityPub →
    (store.upsertFromInvite record).records[k]? = some r
  single : ∃! k : String, ∃ r, (store.upsertFromInvite record).records[k]? = some r ∧
    r.identityPub = record.identityPub
  filed : FiledBy PeerRecord.peerId store.records →
    FiledBy PeerRecord.peerId (store.upsertFromInvite record).records

section Invite

variable {store : PeerStore} {record : PeerRecord} {k : String}

theorem getElem?_others {r : PeerRecord} :
    (store.records.filter fun _ r => r.identityPub != record.identityPub)[k]? = some r ↔
      store.records[k]? = some r ∧ r.identityPub ≠ record.identityPub := by
  rw [ExtTreeMap.getElem?_filter', Option.filter_eq_some_iff, bne_iff_ne]

theorem upsertFromInvite_cases (store : PeerStore) (record : PeerRecord) : ∃ filed : PeerRecord,
    filed.identityPub = record.identityPub ∧
    ((store.HeldByOther record record.peerId ∧ filed.peerId = record.identityPub) ∨
      (¬ store.HeldByOther record record.peerId ∧ filed.peerId = record.peerId)) ∧
    (store.upsertFromInvite record).records[filed.peerId]? = some filed ∧
    ∀ (k : String) r, k ≠ filed.peerId → ((store.upsertFromInvite record).records[k]? = some r ↔
      store.records[k]? = some r ∧ r.identityPub ≠ record.identityPub) := by
  have hfiled : ∀ filed : PeerRecord,
      ((store.records.filter fun _ r => r.identityPub != record.identityPub).insert filed.peerId
        filed)[filed.peerId]? = some filed ∧
      ∀ (k : String) r, k ≠ filed.peerId →
        (((store.records.filter fun _ r => r.identityPub != record.identityPub).insert filed.peerId
          filed)[k]? = some r ↔ store.records[k]? = some r ∧ r.identityPub ≠ record.identityPub) := by
    refine fun filed => ⟨ExtTreeMap.getElem?_insert_self, fun k r hk => ?_⟩
    rw [ExtTreeMap.getElem?_insert, if_neg fun h => hk (Std.compare_eq_iff_eq.mp h).symm,
      getElem?_others]
  rw [upsertFromInvite]
  cases hheld : (store.records.filter fun _ r => r.identityPub != record.identityPub)[record.peerId]? with
  | some existing =>
    have hother := getElem?_others.mp hheld
    simp only [if_pos hother.2]
    exact ⟨{ record with peerId := record.identityPub }, rfl, .inl ⟨⟨existing, hother⟩, rfl⟩,
      hfiled { record with peerId := record.identityPub }⟩
  | none =>
    refine ⟨record, rfl, .inr ⟨fun ⟨r, hr⟩ => ?_, rfl⟩, hfiled record⟩
    rw [getElem?_others.mpr hr] at hheld
    cases hheld

theorem single_upsertFromInvite (store : PeerStore) (record : PeerRecord) :
    ∃! k : String, ∃ r, (store.upsertFromInvite record).records[k]? = some r ∧
      r.identityPub = record.identityPub := by
  obtain ⟨filed, hidentity, -, hfound, hothers⟩ := upsertFromInvite_cases store record
  refine ⟨filed.peerId, ⟨filed, hfound, hidentity⟩, fun k ⟨r, hr, hsame⟩ => ?_⟩
  by_contra hk
  exact ((hothers k r hk).mp hr).2 hsame

theorem filed_upsertFromInvite (h : FiledBy PeerRecord.peerId store.records) (record : PeerRecord) :
    FiledBy PeerRecord.peerId (store.upsertFromInvite record).records := by
  obtain ⟨filed, -, -, hfound, hothers⟩ := upsertFromInvite_cases store record
  intro k r hr
  by_cases hk : k = filed.peerId
  · rw [hk, hfound] at hr
    rw [hk, Option.some_inj.mp hr]
  · exact h k r ((hothers k r hk).mp hr).1

/-- Both keys the record could be filed under are held by others. -/
def BothHeld (store : PeerStore) (record : PeerRecord) : Prop :=
  store.HeldByOther record record.peerId ∧ store.HeldByOther record record.identityPub

theorem keepsApart_iff (store : PeerStore) (record : PeerRecord) :
    store.KeepsApart record ↔ ¬ store.BothHeld record := by
  obtain ⟨filed, hidentity, hplace, hfound, hothers⟩ := upsertFromInvite_cases store record
  constructor
  · rintro h ⟨hheld, r, hr, hne⟩
    -- the record that is filed under the identity is written over
    have hkey : filed.peerId = record.identityPub := by
      rcases hplace with ⟨-, hkey⟩ | ⟨hfree, -⟩
      · exact hkey
      · exact absurd hheld hfree
    have hstays := h.others _ r hr hne
    rw [← hkey, hfound] at hstays
    exact hne (Option.some_inj.mp hstays ▸ hidentity)
  · intro h
    refine ⟨fun k r hr hne => ?_, single_upsertFromInvite store record,
      fun hfiled => filed_upsertFromInvite hfiled record⟩
    by_cases hk : k = filed.peerId
    · have hheld : store.HeldByOther record filed.peerId := ⟨r, hk ▸ hr, hne⟩
      rcases hplace with ⟨htaken, hkey⟩ | ⟨hfree, hkey⟩
      · exact absurd ⟨htaken, hkey ▸ hheld⟩ h
      · exact absurd (hkey ▸ hheld) hfree
    · exact (hothers k r hk).mpr ⟨hr, hne⟩

end Invite

/-! ## Searches with one answer -/

/-- No two records have one identity. -/
def Distinct (store : PeerStore) : Prop :=
  ∀ (k k' : String) r r', store.records[k]? = some r → store.records[k']? = some r' →
    r.identityPub = r'.identityPub → k = k'

/-- What a search gives does not depend on the order the records are visited in. -/
structure OneAnswer (store : PeerStore) : Prop where
  getByIdentity : ∀ order order' id, store.Visits order → store.Visits order' →
    store.getByIdentity order id = store.getByIdentity order' id
  isSupernodeId : ∀ order order' id, store.Visits order → store.Visits order' →
    store.isSupernodeId order id = store.isSupernodeId order' id
  removeByAnyId : ∀ order order' id, store.Visits order → store.Visits order' →
    store.removeByAnyId order id = store.removeByAnyId order' id

section Searches

variable {store : PeerStore} {order order' : List String} {id : String}

/-- Where no more than one element passes, the search finds it in any order. -/
theorem find?_perm {α : Type} {p : α → Bool} {l l' : List α} (h : l.Perm l')
    (hone : ∀ a ∈ l, ∀ b ∈ l, p a = true → p b = true → a = b) : l.find? p = l'.find? p := by
  cases hfound : l.find? p with
  | none =>
    refine (List.find?_eq_none.mpr fun a ha => ?_).symm
    exact List.find?_eq_none.mp hfound a (h.mem_iff.mpr ha)
  | some a =>
    have ha := List.mem_of_find?_eq_some hfound
    have hpa := List.find?_some hfound
    cases hfound' : l'.find? p with
    | none => exact absurd hpa (List.find?_eq_none.mp hfound' a (h.mem_iff.mp ha))
    | some b =>
      have hb := h.mem_iff.mpr (List.mem_of_find?_eq_some hfound')
      rw [hone a ha b hb hpa (List.find?_some hfound')]

theorem oneAnswer_of_distinct (h : store.Distinct) : store.OneAnswer where
  getByIdentity order order' id horder horder' := by
    refine find?_perm ((horder.trans horder'.symm).filterMap _) fun a ha b hb hpa hpb => ?_
    obtain ⟨k, hk⟩ := (mem_visited horder).mp ha
    obtain ⟨k', hk'⟩ := (mem_visited horder).mp hb
    have hsame := h k k' a b hk hk' ((beq_iff_eq.mp hpa).trans (beq_iff_eq.mp hpb).symm)
    rw [hsame, hk'] at hk
    exact (Option.some_inj.mp hk).symm
  isSupernodeId order order' id horder horder' := by
    have hany : (order.filterMap store.get).any (fun r => r.isSupernodeNamed id) =
        (order'.filterMap store.get).any fun r => r.isSupernodeNamed id := by
      rw [Bool.eq_iff_iff, List.any_eq_true, List.any_eq_true]
      simp only [mem_visited horder, mem_visited horder']
    rw [isSupernodeId, isSupernodeId, hany]
  removeByAnyId order order' id horder horder' := by
    have hfind := find?_perm (p := fun k => (store.get k).any fun r => r.identityPub == id)
      (horder.trans horder'.symm) fun k _ k' _ hk hk' => ?_
    · rw [removeByAnyId, removeByAnyId, hfind]
    · simp only [Option.any_eq_true, beq_iff_eq] at hk hk'
      obtain ⟨r, hr, hid⟩ := hk
      obtain ⟨r', hr', hid'⟩ := hk'
      exact h k k' r r' hr hr' (hid.trans hid'.symm)

end Searches

end PeerStore

/-! ## Runs -/

inductive PeerOp where
  | upsertFromInvite (record : PeerRecord)
  | removeByAnyId (id : String) (v : VisitOrder)

namespace PeerStore

def step (store : PeerStore) : PeerOp → PeerStore
  | .upsertFromInvite record => store.upsertFromInvite record
  | .removeByAnyId id v => (store.removeByAnyId (v.order store.records.keys) id).1

section Runs

variable {store : PeerStore}

theorem distinct_upsertFromInvite (h : store.Distinct) (record : PeerRecord) :
    (store.upsertFromInvite record).Distinct := by
  obtain ⟨filed, hidentity, -, hfound, hothers⟩ := upsertFromInvite_cases store record
  -- every record found has the place of the one filed, or was there under another identity
  have hfrom : ∀ (k : String) r, (store.upsertFromInvite record).records[k]? = some r →
      (k = filed.peerId ∧ r.identityPub = record.identityPub) ∨
        (store.records[k]? = some r ∧ r.identityPub ≠ record.identityPub) := by
    intro k r hr
    by_cases hk : k = filed.peerId
    · rw [hk, hfound] at hr
      exact .inl ⟨hk, Option.some_inj.mp hr ▸ hidentity⟩
    · exact .inr ((hothers k r hk).mp hr)
  intro k k' r r' hr hr' hsame
  rcases hfrom k r hr with ⟨hk, hid⟩ | ⟨hold, hne⟩
  · rcases hfrom k' r' hr' with ⟨hk', -⟩ | ⟨-, hne'⟩
    · rw [hk, hk']
    · exact absurd (hsame.symm.trans hid) hne'
  · rcases hfrom k' r' hr' with ⟨-, hid'⟩ | ⟨hold', -⟩
    · exact absurd (hsame.trans hid') hne
    · exact h k k' r r' hold hold' hsame

theorem distinct_erase (h : store.Distinct) (key : String) :
    Distinct ⟨store.records.erase key⟩ := by
  have hfrom : ∀ (k : String) r, (store.records.erase key)[k]? = some r →
      store.records[k]? = some r := by
    intro k r hr
    rw [ExtTreeMap.getElem?_erase] at hr
    split at hr
    · cases hr
    · exact hr
  exact fun k k' r r' hr hr' => h k k' r r' (hfrom k r hr) (hfrom k' r' hr')

theorem Distinct.step (h : store.Distinct) (op : PeerOp) : (store.step op).Distinct := by
  cases op with
  | upsertFromInvite record => exact distinct_upsertFromInvite h record
  | removeByAnyId id v =>
    rw [PeerStore.step, removeByAnyId]
    split
    · exact distinct_erase h id
    · split
      · exact distinct_erase h _
      · exact h

/-- An invite leaves the records of other identities as they are, and its own once, unless
others hold both keys it could be filed under; and in no run does a search depend on the
order the records are visited in. -/
theorem invites_keep_apart (store : PeerStore) (record : PeerRecord) (ops : List PeerOp) :
    (store.KeepsApart record ↔ ¬ store.BothHeld record) ∧
      (run PeerStore.step ⟨∅⟩ ops).OneAnswer := by
  have hdistinct : (run PeerStore.step ⟨∅⟩ ops).Distinct :=
    run_inv Distinct (fun _ _ _ _ hr => by simp at hr) fun _ op h => h.step op
  exact ⟨keepsApart_iff store record, oneAnswer_of_distinct hdistinct⟩

/-- Two peers, of which one has for its peer id the identity of an invited third, who comes
with the peer id of the other. -/
def squatted : PeerStore :=
  PeerStore.upsert
    (PeerStore.upsert ⟨∅⟩ { PeerRecord.default with peerId := "p", identityPub := "alice" })
    { PeerRecord.default with peerId := "carol", identityPub := "bob" }

def carol : PeerRecord :=
  { PeerRecord.default with peerId := "p", identityPub := "carol" }

/-- The record of the squatter is written over. -/
theorem squatter_lost : ¬ squatted.KeepsApart carol := by
  rw [keepsApart_iff, not_not]
  refine ⟨⟨{ PeerRecord.default with peerId := "p", identityPub := "alice" }, ?_, by decide⟩,
    ⟨{ PeerRecord.default with peerId := "carol", identityPub := "bob" }, ?_, by decide⟩⟩
  · rw [squatted, PeerStore.upsert, ExtTreeMap.getElem?_insert, if_neg (by decide +kernel)]
    exact ExtTreeMap.getElem?_insert_self
  · exact ExtTreeMap.getElem?_insert_self

end Runs

end PeerStore

end ConquerD.Client
