import ConquerD.Features.ChannelTags
import ConquerD.Lib.Run
import ConquerD.Lib.TwoWay

/-!
# Features and their tags

The table of features and the table of tags stay inverse to each other over any calls,
the tags in use are those of the tables, and they lie in the dynamic range. A tag is
refused for want of one only when the whole range is bound. An invocation that fails
leaves the tables as they were: the tag it had bound was not there before.
-/

namespace ConquerD.Features

open Lib.Run Lib.TwoWay Wire
open Std (ExtTreeMap ExtTreeSet)

theorem mem_dynamicTags (t : UInt8) :
    t ∈ dynamicTags ↔ dynamicTagStart ≤ t ∧ t ≤ dynamicTagEnd := by
  simp only [dynamicTags, List.mem_map, List.mem_range'_1, UInt8.le_iff_toNat_le]
  have hstart : dynamicTagStart.toNat = 0x10 := rfl
  have hend : dynamicTagEnd.toNat = 0xEF := rfl
  have hlt := t.toNat_lt
  rw [hstart, hend]
  constructor
  · rintro ⟨n, hn, rfl⟩
    have hmod : (UInt8.ofNat n).toNat = n := by
      rw [UInt8.toNat_ofNat']
      omega
    omega
  · intro ht
    exact ⟨t.toNat, by omega, UInt8.ofNat_toNat⟩

/-! ## Tables as partial functions -/

section Tables

variable {α β : Type} [Ord α] [Std.TransOrd α] [Std.LawfulEqOrd α] [DecidableEq α]
  (m : ExtTreeMap α β) (a : α)

theorem getElem?_insert_eq_update (b : β) :
    (fun k => (m.insert a b)[k]?) = Function.update (fun k => m[k]?) a (some b) := by
  funext k
  by_cases h : k = a
  · subst h
    simp
  · simp [ExtTreeMap.getElem?_insert, Function.update_of_ne h, Ne.symm h]

theorem getElem?_erase_eq_update :
    (fun k => (m.erase a)[k]?) = Function.update (fun k => m[k]?) a none := by
  funext k
  by_cases h : k = a
  · subst h
    simp
  · simp [ExtTreeMap.getElem?_erase, Function.update_of_ne h, Ne.symm h]

theorem erase_insert_of_none {b : β} (h : m[a]? = none) : (m.insert a b).erase a = m := by
  refine ExtTreeMap.ext_getElem? fun k => ?_
  by_cases hk : a = k
  · subst hk
    simp [h]
  · simp [ExtTreeMap.getElem?_erase, ExtTreeMap.getElem?_insert, hk]

end Tables

namespace ChannelTagRegistry

/-- The tables undo each other, and the tags in use are theirs and dynamic. -/
structure Bijective (tags : ChannelTagRegistry) : Prop where
  inverse : Inverse (fun f : String => tags.byFeature[f]?) (fun t : UInt8 => tags.byTag[t]?)
  inUse : ∀ t, t ∈ tags.inUse ↔ t ∈ tags.byTag
  dynamic : ∀ t, t ∈ tags.inUse → dynamicTagStart ≤ t ∧ t ≤ dynamicTagEnd

/-- Every tag of the dynamic range is bound. -/
def Full (tags : ChannelTagRegistry) : Prop :=
  ∀ t, dynamicTagStart ≤ t ∧ t ≤ dynamicTagEnd → (tags.featureFor t).isSome

variable {tags : ChannelTagRegistry} {f : String} {t : UInt8}

namespace Bijective

theorem new : Bijective .new where
  inverse f t := by simp [ChannelTagRegistry.new]
  inUse t := by simp [ChannelTagRegistry.new]
  dynamic t ht := by simp [ChannelTagRegistry.new] at ht

theorem byTag_none (h : tags.Bijective) (ht : t ∉ tags.inUse) : tags.byTag[t]? = none := by
  rw [h.inUse] at ht
  exact ExtTreeMap.getElem?_eq_none ht

theorem insert (h : tags.Bijective) (hf : tags.byFeature[f]? = none) (ht : t ∉ tags.inUse)
    (hrange : dynamicTagStart ≤ t ∧ t ≤ dynamicTagEnd) : (tags.insert f t).Bijective where
  inverse := by
    have hins := h.inverse.insert hf (h.byTag_none ht)
    rwa [← getElem?_insert_eq_update, ← getElem?_insert_eq_update] at hins
  inUse u := by
    simp only [ChannelTagRegistry.insert, ExtTreeSet.mem_insert, ExtTreeMap.mem_insert, h.inUse u]
  dynamic u hu := by
    simp only [ChannelTagRegistry.insert, ExtTreeSet.mem_insert, Std.compare_eq_iff_eq] at hu
    rcases hu with rfl | hu
    · exact hrange
    · exact h.dynamic u hu

theorem release (h : tags.Bijective) : (tags.release f).1.Bijective := by
  unfold ChannelTagRegistry.release
  cases hf : tags.byFeature[f]? with
  | none => exact h
  | some t =>
    refine ⟨?_, ?_, ?_⟩
    · have hers := h.inverse.erase (a := f) (b := t) hf
      rwa [← getElem?_erase_eq_update, ← getElem?_erase_eq_update] at hers
    · intro u
      simp only [ExtTreeSet.mem_erase, ExtTreeMap.mem_erase, h.inUse u]
    · intro u hu
      exact h.dynamic u (ExtTreeSet.mem_erase.mp hu).2

end Bijective

theorem free_of_find (hfind : dynamicTags.find? (fun t => !tags.inUse.contains t) = some t) :
    t ∉ tags.inUse ∧ dynamicTagStart ≤ t ∧ t ≤ dynamicTagEnd := by
  refine ⟨?_, (mem_dynamicTags t).mp (List.mem_of_find?_eq_some hfind)⟩
  intro hin
  have hfree := List.find?_some hfind
  rw [ExtTreeSet.mem_iff_contains.mp hin] at hfree
  cases hfree

theorem bind_cases (tags : ChannelTagRegistry) (f : String) :
    (∃ e, tags.bind f = (tags, .error e)) ∨
      ∃ t, tags.bind f = (tags.insert f t, .ok t) ∧ tags.byFeature[f]? = none ∧
        t ∉ tags.inUse ∧ dynamicTagStart ≤ t ∧ t ≤ dynamicTagEnd := by
  unfold bind
  split
  · exact .inl ⟨_, rfl⟩
  · next hfree =>
    split
    · exact .inl ⟨_, rfl⟩
    · next t hfind =>
      exact .inr ⟨t, rfl, by simpa using hfree, free_of_find hfind⟩

theorem bind_exhausted_iff (h : tags.Bijective) :
    (tags.bind f).2 = .error .exhausted ↔ tags.tagFor f = none ∧ tags.Full := by
  have hbound : ∀ t, t ∈ tags.inUse ↔ (tags.featureFor t).isSome := by
    intro t
    rw [h.inUse, featureFor, ExtTreeMap.isSome_getElem?_eq_contains, ExtTreeMap.mem_iff_contains]
  unfold bind
  split
  · next hf =>
    have htag : tags.tagFor f ≠ none := by simpa [tagFor] using hf
    simp [htag]
  · next hf =>
    have htag : tags.tagFor f = none := by simpa [tagFor] using hf
    cases hfind : dynamicTags.find? (fun t => !tags.inUse.contains t) with
    | none =>
      have hall : tags.Full := by
        intro t ht
        have hin := List.find?_eq_none.mp hfind t ((mem_dynamicTags t).mpr ht)
        exact (hbound t).mp (by simpa using hin)
      simp [htag, hall]
    | some t =>
      obtain ⟨hfree, hrange⟩ := free_of_find hfind
      have hnot : ¬ tags.Full := fun hfull => hfree ((hbound t).mpr (hfull t hrange))
      simp [hnot]

theorem release_insert (h : tags.Bijective) (hf : tags.byFeature[f]? = none)
    (ht : t ∉ tags.inUse) : ((tags.insert f t).release f).1 = tags := by
  have hset : (tags.inUse.insert t).erase t = tags.inUse := by
    refine ExtTreeSet.ext_mem fun u => ?_
    simp only [ExtTreeSet.mem_erase, ExtTreeSet.mem_insert, Std.compare_eq_iff_eq]
    constructor
    · rintro ⟨hne, rfl | hu⟩
      · exact absurd Std.ReflCmp.compare_self hne
      · exact hu
    · intro hu
      refine ⟨?_, .inr hu⟩
      intro heq
      cases Std.compare_eq_iff_eq.mp heq
      exact ht hu
  simp [release, insert, erase_insert_of_none _ _ hf, erase_insert_of_none _ _ (h.byTag_none ht),
    hset]

/-- An invocation binds a tag that was free and returns it, or leaves the tags as they
were. -/
theorem dispatchInvokeDatagram_cases (h : tags.Bijective) (M : FeatureModules)
    (reg : ModuleRegistry) (id peer : String) (params : Json) (now : Nat) :
    (∃ e, (reg.dispatchInvokeDatagram M id peer params now tags).2 = (tags, .error e)) ∨
      ∃ t, (reg.dispatchInvokeDatagram M id peer params now tags).2 =
          (tags.insert id t, .ok t) ∧
        tags.byFeature[id]? = none ∧ t ∉ tags.inUse ∧ dynamicTagStart ≤ t ∧
          t ≤ dynamicTagEnd := by
  unfold ModuleRegistry.dispatchInvokeDatagram
  split
  · exact .inl ⟨_, rfl⟩
  · split
    · exact .inl ⟨_, rfl⟩
    · simp only
      split
      · exact .inl ⟨_, rfl⟩
      · rcases tags.bind_cases id with ⟨e, hbind⟩ | ⟨t, hbind, hfree, hunused, hrange⟩
        · rw [hbind]
          exact .inl ⟨_, rfl⟩
        · rw [hbind]
          simp only
          split
          · exact .inr ⟨t, rfl, hfree, hunused, hrange⟩
          · next e _ => exact .inl ⟨e, by rw [release_insert h hfree hunused]⟩

theorem Bijective.step (h : tags.Bijective) (c : TagCall) : (tags.step c).Bijective := by
  cases c with
  | bind f =>
    unfold ChannelTagRegistry.step
    rcases tags.bind_cases f with ⟨e, hbind⟩ | ⟨t, hbind, hf, ht, hrange⟩
    · simpa only [hbind] using h
    · simpa only [hbind] using h.insert hf ht hrange
  | bindTo f t =>
    simp only [ChannelTagRegistry.step, bindTo]
    split
    · exact h
    · next hrange =>
      split
      · exact h
      · next hf =>
        split
        · exact h
        · next ht => exact h.insert (by simpa using hf) (by simpa using ht) (not_not.mp hrange)
  | release f => exact h.release
  | dispatchInvokeDatagram M reg id peer params now =>
    unfold ChannelTagRegistry.step
    rcases dispatchInvokeDatagram_cases h M reg id peer params now with
      ⟨e, hcall⟩ | ⟨t, hcall, hf, ht, hrange⟩
    · simpa only [hcall] using h
    · simpa only [hcall] using h.insert hf ht hrange

/-- After any calls features and tags are inverse to each other, the tags in use are
those that are bound and lie in the dynamic range, no tag is left for a feature without
one exactly when all are bound, and an invocation that fails changes nothing. -/
theorem tags_bijective (calls : List TagCall) :
    (run step .new calls).Bijective ∧
      (∀ f, ((run step .new calls).bind f).2 = .error .exhausted ↔
        (run step .new calls).tagFor f = none ∧ (run step .new calls).Full) ∧
      ∀ (M : FeatureModules) (reg : ModuleRegistry) id peer params now e,
        (reg.dispatchInvokeDatagram M id peer params now (run step .new calls)).2.2 = .error e →
          (reg.dispatchInvokeDatagram M id peer params now (run step .new calls)).2.1 =
            run step .new calls := by
  have hrun : (run step .new calls).Bijective :=
    run_inv Bijective .new fun _ c h => h.step c
  refine ⟨hrun, fun f => bind_exhausted_iff hrun, ?_⟩
  intro M reg id peer params now e herr
  rcases dispatchInvokeDatagram_cases hrun M reg id peer params now with
    ⟨e', hcall⟩ | ⟨t, hcall, -⟩
  · rw [hcall]
  · rw [hcall] at herr
    cases herr

/-- A datagram feature whose module rejects. -/
def failing : FeatureModules where
  kind _ := .datagram
  onInvoke _ _ := .error (.internal "intentional failure")

def failingRegistry : ModuleRegistry :=
  (ModuleRegistry.new.registerModule ⟨"x.test.fail", "1.0", ⟨none, none, none, none⟩⟩).1

theorem tags_bijective_failing :
    (failingRegistry.dispatchInvokeDatagram failing "x.test.fail" "peer-a" .null 0
        (run step .new [.bind "a.x"])).2.1 = run step .new [.bind "a.x"] :=
  (tags_bijective [.bind "a.x"]).2.2 failing failingRegistry "x.test.fail" "peer-a" .null 0
    (.internal "intentional failure") (by decide +kernel)

end ChannelTagRegistry

end ConquerD.Features
