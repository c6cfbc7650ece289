import ConquerD.Lib.Run
import ConquerD.Supernode.ClusterLink
import Mathlib.Data.List.Find

/-!
# The table of cluster links and the links that run

A link that starts takes the entry of its member, and a link that ends drops
that entry, be it its own or that of a newer link. The table agrees with the
links that run exactly as long as every link ends as the last one of its
member.
-/

namespace ConquerD.Supernode

open Std (ExtTreeMap ExtTreeSet)
open Lib.Rosters Lib.Run

/-! ## What the table answers -/

namespace LinkState

variable {st : LinkState} {member roomId : String} {link : Nat}

theorem mem_membersForRoom :
    member ∈ st.membersForRoom roomId ↔ Listed st.remoteSubs member roomId := by
  simp only [membersForRoom, List.mem_map, List.mem_filter, decide_eq_true_eq, Prod.exists,
    ExtTreeMap.mem_toList_iff_getElem?_eq_some, Listed, members]
  constructor
  · rintro ⟨m, rooms, ⟨hrooms, hroom⟩, rfl⟩
    rw [hrooms]
    exact hroom
  · intro hroom
    cases hrooms : st.remoteSubs[member]? with
    | none =>
      rw [hrooms] at hroom
      simp at hroom
    | some rooms =>
      rw [hrooms] at hroom
      exact ⟨member, rooms, ⟨hrooms, hroom⟩, rfl⟩

theorem mem_replicate :
    link ∈ st.replicate roomId ↔
      ∃ member, Listed st.remoteSubs member roomId ∧ st.peers[member]? = some link := by
  simp only [replicate, List.mem_filterMap, mem_membersForRoom]

end LinkState

namespace LinkTable

variable {t : LinkTable} {link link' : Nat} {m m' : String}

/-! ## The links that run -/

theorem memberOf_eq_some_iff : t.memberOf link = some m ↔ t.links[link]? = some ⟨m, true⟩ := by
  unfold memberOf
  cases t.links[link]? with
  | none => simp
  | some run =>
    obtain ⟨memberId, running⟩ := run
    cases running <;> simp [Option.filter]

theorem memberOf_started :
    (t.step (.started m)).memberOf link =
      if link = t.links.length then some m else t.memberOf link := by
  simp only [memberOf, step, List.getElem?_append]
  by_cases hlt : link < t.links.length
  · rw [if_pos hlt, if_neg (by omega)]
  · rw [if_neg hlt]
    split
    · next heq => simp [heq, Option.filter]
    · next hne =>
      rw [List.getElem?_eq_none (by simp; omega), List.getElem?_eq_none (by omega)]

theorem memberOf_ended (h : t.memberOf link = some m) :
    (t.step (.ended link)).memberOf link' = if link' = link then none else t.memberOf link' := by
  have hlt : link < t.links.length :=
    (List.getElem?_eq_some_iff.mp (memberOf_eq_some_iff.mp h)).1
  simp only [step, h]
  by_cases heq : link' = link
  · subst heq
    simp [memberOf, List.getElem?_set_self hlt, Option.filter]
  · rw [if_neg heq]
    simp only [memberOf]
    rw [List.getElem?_set_ne (Ne.symm heq)]

/-! ## What is asked -/

/-- A member with a link that runs is registered, and a room it named last on a link
that runs is replicated to it, over a link of its own that runs. -/
structure Agrees (t : LinkTable) : Prop where
  registered : ∀ link m, t.memberOf link = some m → m ∈ t.state.peers
  reached : ∀ m rooms roomId, t.lastHeard m = some rooms → roomId ∈ rooms →
    ∃ link ∈ t.state.replicate roomId, t.memberOf link = some m

def LastToEnd (t : LinkTable) : LinkEvent → Prop
  | .ended link => ∀ m link', t.memberOf link = some m → t.memberOf link' = some m → link' = link
  | _ => True

/-- The channel a member is registered with is that of a link of its own that runs. -/
def ChannelsRun (t : LinkTable) : Prop :=
  ∀ m link, t.state.peers[m]? = some link → t.memberOf link = some m

/-! ## One event -/

theorem ChannelsRun.step (h : t.ChannelsRun) (e : LinkEvent) : (t.step e).ChannelsRun := by
  intro m link hpeer
  cases e with
  | started m' =>
    rw [memberOf_started]
    simp only [LinkTable.step, LinkState.register, ExtTreeMap.getElem?_insert,
      Std.compare_eq_iff_eq] at hpeer
    split at hpeer
    · next heq =>
      obtain rfl := heq
      obtain rfl := Option.some.inj hpeer
      exact if_pos rfl
    · have hrun := h m link hpeer
      have hlt := (List.getElem?_eq_some_iff.mp (memberOf_eq_some_iff.mp hrun)).1
      rw [if_neg (by omega)]
      exact hrun
  | subscriptions link' rooms =>
    simp only [LinkTable.step] at hpeer ⊢
    split at hpeer
    · exact h m link hpeer
    · exact h m link hpeer
  | otherMessage link' => exact h m link hpeer
  | ended link' =>
    cases hended : t.memberOf link' with
    | none =>
      simp only [LinkTable.step, hended] at hpeer ⊢
      exact h m link hpeer
    | some m' =>
      rw [memberOf_ended hended]
      simp only [LinkTable.step, hended, LinkState.closeLink, ExtTreeMap.getElem?_erase,
        Std.compare_eq_iff_eq] at hpeer
      split at hpeer
      · cases hpeer
      · next hne =>
        have hrun := h m link hpeer
        rw [if_neg]
        · exact hrun
        · rintro rfl
          exact hne (Option.some.inj (hended.symm.trans hrun))

theorem ChannelsRun.reached (h : t.ChannelsRun) {roomId : String}
    (hreg : m ∈ t.state.peers) (hfiled : Listed t.state.remoteSubs m roomId) :
    ∃ link ∈ t.state.replicate roomId, t.memberOf link = some m := by
  obtain ⟨link, hlink⟩ := Option.isSome_iff_exists.mp (ExtTreeMap.isSome_getElem?_iff_mem.mpr hreg)
  exact ⟨link, LinkState.mem_replicate.mpr ⟨m, hfiled, hlink⟩, h m link hlink⟩

theorem ChannelsRun.filed (h : t.ChannelsRun) {roomId : String}
    (hreached : ∃ link ∈ t.state.replicate roomId, t.memberOf link = some m) :
    Listed t.state.remoteSubs m roomId := by
  obtain ⟨link, hlink, hrun⟩ := hreached
  obtain ⟨m', hfiled, hpeer⟩ := LinkState.mem_replicate.mp hlink
  obtain rfl := Option.some.inj (hrun.symm.trans (h m' link hpeer))
  exact hfiled

theorem exists_of_lastHeard {rooms : List String} (h : t.lastHeard m = some rooms) :
    ∃ link, t.memberOf link = some m := by
  obtain ⟨e, he, -⟩ := Option.map_eq_some_iff.mp h
  exact ⟨e.1, by simpa using List.find?_some he⟩

theorem lastHeard_congr {t' : LinkTable} (hheard : t'.heard = t.heard)
    (hmember : ∀ e ∈ t.heard, t'.memberOf e.1 = some m ↔ t.memberOf e.1 = some m) :
    t'.lastHeard m = t.lastHeard m := by
  unfold lastHeard
  rw [hheard]
  have hfind : (t.heard.find? fun e => t'.memberOf e.1 = some m) =
      t.heard.find? fun e => t.memberOf e.1 = some m :=
    List.find?_congr fun e he => by simp only [hmember e he]
  rw [hfind]

theorem Agrees.started (h : t.Agrees) (hrun : t.ChannelsRun) (m : String)
    (hbelow : ∀ e ∈ t.heard, e.1 < t.links.length) : (t.step (.started m)).Agrees := by
  have hpeers : ∀ m', m' ∈ (t.step (.started m)).state.peers ↔ m = m' ∨ m' ∈ t.state.peers := by
    intro m'
    simp [LinkTable.step, LinkState.register, ExtTreeMap.mem_insert]
  refine ⟨?_, ?_⟩
  · intro link m' hmember
    rw [memberOf_started] at hmember
    rw [hpeers]
    split at hmember
    · exact .inl (Option.some.inj hmember)
    · exact .inr (h.registered link m' hmember)
  · intro m' rooms roomId hheard hroom
    have hsame : (t.step (.started m)).lastHeard m' = t.lastHeard m' := by
      refine lastHeard_congr rfl fun e he => ?_
      rw [memberOf_started, if_neg (Nat.ne_of_lt (hbelow e he))]
    rw [hsame] at hheard
    have hreached := h.reached m' rooms roomId hheard hroom
    obtain ⟨link, hlink⟩ := exists_of_lastHeard hheard
    refine (hrun.step _).reached ((hpeers m').mpr (.inr (h.registered link m' hlink))) ?_
    exact hrun.filed hreached

theorem Agrees.subscriptions (h : t.Agrees) (hrun : t.ChannelsRun) (link : Nat)
    (rooms : List String) : (t.step (.subscriptions link rooms)).Agrees := by
  have hnext := hrun.step (.subscriptions link rooms)
  cases hlink : t.memberOf link with
  | none =>
    simp only [LinkTable.step, hlink]
    exact h
  | some m =>
    simp only [LinkTable.step, hlink] at hnext ⊢
    refine ⟨h.registered, ?_⟩
    intro m' rooms' roomId hheard hroom
    obtain ⟨link', hlink'⟩ := exists_of_lastHeard hheard
    refine hnext.reached (h.registered link' m' hlink') ?_
    simp only [LinkState.setSubscriptions, Listed, members_insert]
    by_cases heq : m = m'
    · subst heq
      have hlast : some rooms = some rooms' := by
        rw [← hheard]
        unfold lastHeard
        rw [List.find?_cons_of_pos]
        · rfl
        · exact decide_eq_true hlink
      obtain rfl := Option.some.inj hlast
      rw [if_pos rfl]
      simpa using hroom
    · rw [if_neg heq]
      have hlast : t.lastHeard m' = some rooms' := by
        rw [← hheard]
        unfold lastHeard
        rw [List.find?_cons_of_neg]
        · rfl
        · have hne : t.memberOf link ≠ some m' := by
            rw [hlink]
            exact fun hsome => heq (Option.some.inj hsome)
          exact fun hdec => hne (of_decide_eq_true hdec)
      exact hrun.filed (h.reached m' rooms' roomId hlast hroom)

theorem Agrees.ended_iff (h : t.Agrees) (hrun : t.ChannelsRun) (link : Nat) :
    (t.step (.ended link)).Agrees ↔ t.LastToEnd (.ended link) := by
  have hnext := hrun.step (.ended link)
  cases hlink : t.memberOf link with
  | none =>
    simp only [LinkTable.step, hlink, LastToEnd]
    refine ⟨fun _ m link' hm => ?_, fun _ => h⟩
    cases hm
  | some m =>
    have hpeers : ∀ m', m' ∈ (t.step (.ended link)).state.peers ↔ m ≠ m' ∧ m' ∈ t.state.peers := by
      intro m'
      simp [LinkTable.step, hlink, LinkState.closeLink, ExtTreeMap.mem_erase]
    constructor
    · intro hafter m' link' hm hlink'
      obtain rfl := Option.some.inj (hlink.symm.trans hm)
      by_contra hne
      have hstays : (t.step (.ended link)).memberOf link' = some m := by
        rw [memberOf_ended hlink, if_neg hne]
        exact hlink'
      exact ((hpeers m).mp (hafter.registered link' m hstays)).1 rfl
    · intro hlast
      have hothers : ∀ link' m', (t.step (.ended link)).memberOf link' = some m' ↔
          t.memberOf link' = some m' ∧ m ≠ m' := by
        intro link' m'
        rw [memberOf_ended hlink]
        split
        · next heq =>
          subst heq
          simp [hlink]
        · next hne =>
          refine ⟨fun hm => ⟨hm, ?_⟩, And.left⟩
          rintro rfl
          exact hne (hlast m link' hlink hm)
      refine ⟨?_, ?_⟩
      · intro link' m' hm
        obtain ⟨hm, hne⟩ := (hothers link' m').mp hm
        exact (hpeers m').mpr ⟨hne, h.registered link' m' hm⟩
      · intro m' rooms roomId hheard hroom
        obtain ⟨link', hlink'⟩ := exists_of_lastHeard hheard
        obtain ⟨hm, hne⟩ := (hothers link' m').mp hlink'
        have hsame : (t.step (.ended link)).lastHeard m' = t.lastHeard m' := by
          refine lastHeard_congr ?_ fun e _ => ?_
          · simp only [LinkTable.step, hlink]
          · rw [hothers]
            exact and_iff_left hne
        rw [hsame] at hheard
        refine hnext.reached ((hpeers m').mpr ⟨hne, h.registered link' m' hm⟩) ?_
        have hfiled := hrun.filed (h.reached m' rooms roomId hheard hroom)
        simp only [LinkTable.step, hlink, LinkState.closeLink, Listed, members_erase, if_neg hne]
        exact hfiled

/-! ## Runs -/

/-- The channels run, and what was heard came by a link that was started. -/
structure Inv (t : LinkTable) : Prop where
  channels : t.ChannelsRun
  heard : ∀ e ∈ t.heard, e.1 < t.links.length

theorem Inv.new : LinkTable.new.Inv where
  channels m link hpeer := by simp [LinkTable.new, LinkState.new] at hpeer
  heard e he := by simp [LinkTable.new] at he

theorem Inv.step (h : t.Inv) (e : LinkEvent) : (t.step e).Inv := by
  refine ⟨h.channels.step e, ?_⟩
  intro heard hmem
  cases e with
  | started m =>
    have hlt := h.heard heard hmem
    simp only [LinkTable.step, List.length_append, List.length_singleton]
    omega
  | subscriptions link rooms =>
    simp only [LinkTable.step] at hmem ⊢
    split at hmem
    · exact h.heard heard hmem
    · next m hlink =>
      rcases List.mem_cons.mp hmem with rfl | hmem
      · exact (List.getElem?_eq_some_iff.mp (memberOf_eq_some_iff.mp hlink)).1
      · exact h.heard heard hmem
  | otherMessage link => exact h.heard heard hmem
  | ended link =>
    simp only [LinkTable.step] at hmem ⊢
    split at hmem
    · exact h.heard heard hmem
    · simpa using h.heard heard hmem

theorem agrees_new : LinkTable.new.Agrees where
  registered link m hm := by simp [LinkTable.new, memberOf] at hm
  reached m rooms roomId hheard := by simp [LinkTable.new, lastHeard] at hheard

theorem agrees_step_iff (hinv : t.Inv) (h : t.Agrees) (e : LinkEvent) :
    (t.step e).Agrees ↔ t.LastToEnd e := by
  cases e with
  | started m => exact iff_of_true (h.started hinv.channels m hinv.heard) trivial
  | subscriptions link rooms => exact iff_of_true (h.subscriptions hinv.channels link rooms) trivial
  | otherMessage link => exact iff_of_true h trivial
  | ended link => exact h.ended_iff hinv.channels link

/-- Along every interleaving of links that start, read and end, the table agrees with the
links that run if and only if every link ends as the last of its member. -/
theorem along_agrees_iff (es : List LinkEvent) :
    Along step (fun t e => (t.step e).Agrees) new es ↔ Along step LastToEnd new es :=
  along_after_iff Inv Agrees .new agrees_new (fun _ e hinv => hinv.step e)
    fun _ e hinv h => agrees_step_iff hinv h e

/-- A second link of Bob comes up before the first has ended; when the first ends, Bob has
a link that runs and is not registered. -/
theorem second_link_unregistered :
    ¬ Along step (fun t e => (t.step e).Agrees) new
      [.started "bob", .started "bob", .subscriptions 1 ["den"], .ended 0] := by
  rintro ⟨-, -, -, hended, -⟩
  have hreg := hended.registered 1 "bob" (by decide +kernel)
  revert hreg
  decide +kernel

end LinkTable

end ConquerD.Supernode
