import ConquerD.Client.Playout
import ConquerD.Lib.Run
import Mathlib.Algebra.Order.Group.Multiset
import Mathlib.Data.List.Perm.Subperm
import Mathlib.Tactic.Abel

/-!
# Video against the timeline of its sender

Every decision is taken from the timestamp alone, so that a sweep splits what is held in
three. Nothing pushed is lost but what the timeline passed by more than is tolerated, and
what six newer frames crowd out. One call shows its frames in order; over many calls they
are in order as long as none comes after a later one was shown.
-/

namespace ConquerD.Client.Playout

open Std (ExtTreeMap)
open Lib.Run Lib.SortedQueue

variable {α : Type}

/-! ## One decision -/

section Decision

variable {audioNow ptsUs : UInt64} {audioNowUs : Option UInt64}

theorem checkedAdd_eq_some {a b c : UInt64} (h : checkedAdd a b = some c) :
    c.toNat = a.toNat + b.toNat := by
  rw [checkedAdd] at h
  split at h
  · next hfits =>
    cases h
    rw [UInt64.toNat_add, Nat.mod_eq_of_lt hfits]
  · cases h

theorem isSome_checkedAdd {a b : UInt64} (h : a.toNat + b.toNat < 2 ^ 64) :
    ∃ c, checkedAdd a b = some c :=
  ⟨a + b, by rw [checkedAdd, if_pos h]⟩

theorem of_decideAgainst {d : SyncDecision} (h : decideAgainst (some audioNow) ptsUs = some d) :
    match d with
    | .dropped => ptsUs.toNat + lateToleranceUs.toNat < audioNow.toNat
    | .shown => ptsUs.toNat ≤ audioNow.toNat + earlyToleranceUs.toNat
    | .held => audioNow.toNat + earlyToleranceUs.toNat < ptsUs.toNat := by
  rw [decideAgainst] at h
  obtain ⟨last, hlast, h⟩ := Option.bind_eq_some_iff.mp h
  split at h
  · next hlate =>
    cases h
    rw [UInt64.lt_iff_toNat_lt, checkedAdd_eq_some hlast] at hlate
    exact hlate
  · obtain ⟨soonest, hsoonest, h⟩ := Option.bind_eq_some_iff.mp h
    split at h
    · next hdue =>
      cases h
      rw [UInt64.le_iff_toNat_le, checkedAdd_eq_some hsoonest] at hdue
      exact hdue
    · next hahead =>
      cases h
      rw [UInt64.le_iff_toNat_le, checkedAdd_eq_some hsoonest] at hahead
      exact Nat.lt_of_not_le hahead

theorem isSome_decideAgainst (hpts : ptsUs.toNat + lateToleranceUs.toNat < 2 ^ 64)
    (hnow : ∀ n ∈ audioNowUs, n.toNat + earlyToleranceUs.toNat < 2 ^ 64) :
    ∃ d, decideAgainst audioNowUs ptsUs = some d := by
  cases audioNowUs with
  | none => exact ⟨.shown, rfl⟩
  | some n =>
    obtain ⟨last, hlast⟩ := isSome_checkedAdd hpts
    obtain ⟨soonest, hsoonest⟩ := isSome_checkedAdd (hnow n rfl)
    simp only [decideAgainst, hlast, hsoonest, Option.bind_eq_bind, Option.bind_some]
    split
    · exact ⟨_, rfl⟩
    · split
      · exact ⟨_, rfl⟩
      · exact ⟨_, rfl⟩

end Decision

/-! ## One sweep -/

/-- The frames of a list that meet with a decision. -/
def decided (audioNowUs : Option UInt64) (d : SyncDecision) (l : List (QueuedFrame α)) :
    List (QueuedFrame α) :=
  l.filter fun f => decideAgainst audioNowUs f.ptsUs = some d

section Sweep

variable {audioNowUs : Option UInt64} {l : List (QueuedFrame α)}

theorem mem_decided {d : SyncDecision} {f : QueuedFrame α} :
    f ∈ decided audioNowUs d l ↔ f ∈ l ∧ decideAgainst audioNowUs f.ptsUs = some d := by
  rw [decided, List.mem_filter, decide_eq_true_iff]

theorem decided_cons {f : QueuedFrame α} {d : SyncDecision} (d' : SyncDecision)
    (hd : decideAgainst audioNowUs f.ptsUs = some d) :
    decided audioNowUs d' (f :: l) =
      if d = d' then f :: decided audioNowUs d' l else decided audioNowUs d' l := by
  rw [decided, List.filter_cons, hd]
  simp only [Option.some_inj, decide_eq_true_iff]
  rfl

theorem sweep_eq_some {out kept : List (QueuedFrame α)} (h : sweep audioNowUs l = some (out, kept)) :
    out = decided audioNowUs .shown l ∧ kept = decided audioNowUs .held l ∧
      l.Perm (out ++ kept ++ decided audioNowUs .dropped l) := by
  induction l generalizing out kept with
  | nil =>
    cases h
    exact ⟨rfl, rfl, .refl _⟩
  | cons f rest ih =>
    rw [sweep] at h
    obtain ⟨d, hd, h⟩ := Option.bind_eq_some_iff.mp h
    obtain ⟨⟨out', kept'⟩, hsweep, h⟩ := Option.bind_eq_some_iff.mp h
    obtain ⟨hout, hkept, hperm⟩ := ih hsweep
    have hmiddle : ∀ before after, rest.Perm (before ++ after) →
        (f :: rest).Perm (before ++ f :: after) :=
      fun _ _ hrest => (hrest.cons f).trans List.perm_middle.symm
    simp only [decided_cons _ hd, ← hout, ← hkept]
    cases d with
    | shown =>
      cases h
      exact ⟨rfl, rfl, hperm.cons f⟩
    | held =>
      cases h
      refine ⟨rfl, rfl, ?_⟩
      rw [List.append_assoc] at hperm ⊢
      exact hmiddle _ _ hperm
    | dropped =>
      cases h
      exact ⟨rfl, rfl, hmiddle _ _ hperm⟩

theorem isSome_sweep (h : ∀ f ∈ l, ∃ d, decideAgainst audioNowUs f.ptsUs = some d) :
    ∃ out kept, sweep audioNowUs l = some (out, kept) := by
  induction l with
  | nil => exact ⟨[], [], rfl⟩
  | cons f rest ih =>
    obtain ⟨d, hd⟩ := h f List.mem_cons_self
    obtain ⟨out, kept, hsweep⟩ := ih fun g hg => h g (List.mem_cons_of_mem _ hg)
    simp only [sweep, hd, hsweep, Option.bind_eq_bind, Option.bind_some]
    cases d with
    | shown => exact ⟨_, _, rfl⟩
    | held => exact ⟨_, _, rfl⟩
    | dropped => exact ⟨_, _, rfl⟩

end Sweep

/-! ## One call -/

namespace VideoPlayout

variable (p : VideoPlayout α) (peer : String) (frame : QueuedFrame α) (now : Nat)

/-- The frames that a call lets go: the oldest past the bound, and those that are late. -/
def lost : List (QueuedFrame α) :=
  shed maxQueuedFrames (p.sortedWith peer frame) ++
    decided (p.audioNowUs peer now) .dropped (keep maxQueuedFrames (p.sortedWith peer frame))

/-- The timeline passed the frame by more than is tolerated. -/
def Late (f : QueuedFrame α) : Prop :=
  ∃ audioNow ∈ p.audioNowUs peer now, f.ptsUs.toNat + lateToleranceUs.toNat < audioNow.toNat

/-- As many frames as may be held are no older than this one. -/
def Crowded (f : QueuedFrame α) : Prop :=
  ∃ newer : List (QueuedFrame α), newer.length = maxQueuedFrames ∧
    (f :: newer).Subperm (p.queued peer ++ [frame]) ∧ ∀ g ∈ newer, f.ptsUs ≤ g.ptsUs

/-- What is expected of one call. -/
structure Answers (p' : VideoPlayout α) (out : List (QueuedFrame α)) : Prop where
  ordered : out.Pairwise fun f g => f.ptsUs ≤ g.ptsUs
  conserved : (p.queued peer ++ [frame]).Perm
    (out ++ p'.queued peer ++ p.lost peer frame now)
  few : (p'.queued peer).length ≤ maxQueuedFrames
  excused : ∀ f ∈ p.lost peer frame now, p.Late peer now f ∨ p.Crowded peer frame f
  /-- What is shown would be, and what would be is, unless newer frames crowd it out. -/
  agrees : (frame ∈ out → p.decide peer frame.ptsUs now = some .shown) ∧
    (p.decide peer frame.ptsUs now = some .shown → frame ∈ out ∨ p.Crowded peer frame frame)
  /-- What is held is newer than what is shown. -/
  apart : ∀ f ∈ out, ∀ g ∈ p'.queued peer, f.ptsUs ≤ g.ptsUs
  others : ∀ who ≠ peer, p'.queued who = p.queued who
  anchors : p'.anchors = p.anchors

end VideoPlayout

section Call

open VideoPlayout

variable {p p' : VideoPlayout α} {peer : String} {frame : QueuedFrame α} {now : Nat}
  {out : List (QueuedFrame α)}

theorem sortedWith_perm (p : VideoPlayout α) (peer : String) (frame : QueuedFrame α) :
    (p.sortedWith peer frame).Perm (p.queued peer ++ [frame]) :=
  sortByKey_perm _ _

theorem crowded_of_mem_shed {f : QueuedFrame α}
    (h : f ∈ shed maxQueuedFrames (p.sortedWith peer frame)) : p.Crowded peer frame f := by
  obtain ⟨hmany, hnewer⟩ := of_mem_shed _ (pairwise_sortByKey _ _) h
  refine ⟨_, hmany, ?_, fun g hg => UInt64.le_iff_toNat_le.mpr (hnewer g hg)⟩
  have hsub : ([f] ++ keep maxQueuedFrames (p.sortedWith peer frame)).Sublist
      (p.sortedWith peer frame) := by
    conv_rhs => rw [← shed_append_keep maxQueuedFrames (p.sortedWith peer frame)]
    exact (List.singleton_sublist.mpr h).append_right _
  exact hsub.subperm.trans (sortedWith_perm p peer frame).subperm

theorem push_eq_some (h : p.push peer frame now = some (p', out)) :
    ∃ kept, sweep (p.audioNowUs peer now) (keep maxQueuedFrames (p.sortedWith peer frame)) =
      some (out, kept) ∧ p' = { p with queues := p.queues.insert peer kept } := by
  rw [VideoPlayout.push] at h
  obtain ⟨⟨out', kept⟩, hsweep, h⟩ := Option.bind_eq_some_iff.mp h
  cases h
  exact ⟨kept, hsweep, rfl⟩

theorem queued_insert (p : VideoPlayout α) (peer who : String) (kept : List (QueuedFrame α)) :
    ({ p with queues := p.queues.insert peer kept } : VideoPlayout α).queued who =
      if peer = who then kept else p.queued who := by
  simp only [queued, ExtTreeMap.getElem?_insert, Std.LawfulEqCmp.compare_eq_iff_eq]
  split
  · rfl
  · rfl

theorem apart_of_decided {audioNowUs : Option UInt64} {l : List (QueuedFrame α)}
    {f g : QueuedFrame α} (hf : f ∈ decided audioNowUs .shown l)
    (hg : g ∈ decided audioNowUs .held l) : f.ptsUs ≤ g.ptsUs := by
  have hshown := (mem_decided.mp hf).2
  have hheld := (mem_decided.mp hg).2
  cases audioNowUs with
  | none => cases hheld
  | some n =>
    have hdue := of_decideAgainst hshown
    have hahead := of_decideAgainst hheld
    exact UInt64.le_iff_toNat_le.mpr (hdue.trans hahead.le)

theorem late_of_decided {f : QueuedFrame α} {l : List (QueuedFrame α)}
    (hf : f ∈ decided (p.audioNowUs peer now) .dropped l) : p.Late peer now f := by
  have hdropped := (mem_decided.mp hf).2
  cases hnow : p.audioNowUs peer now with
  | none =>
    rw [hnow] at hdropped
    cases hdropped
  | some n =>
    rw [hnow] at hdropped
    exact ⟨n, hnow, of_decideAgainst hdropped⟩

theorem decide_ne_dropped (h : p.push peer frame now = some (p', out)) {g : QueuedFrame α}
    (hg : g ∈ out ∨ g ∈ p'.queued peer) : p.decide peer g.ptsUs now ≠ some .dropped := by
  obtain ⟨kept, hsweep, rfl⟩ := push_eq_some h
  obtain ⟨hout, hkept, -⟩ := sweep_eq_some hsweep
  rw [queued_insert, if_pos rfl, hout, hkept, mem_decided, mem_decided] at hg
  unfold VideoPlayout.decide
  rcases hg with hshown | hheld
  · rw [hshown.2]
    decide
  · rw [hheld.2]
    decide

theorem answers_push (h : p.push peer frame now = some (p', out)) :
    p.Answers peer frame now p' out := by
  obtain ⟨kept, hsweep, rfl⟩ := push_eq_some h
  obtain ⟨hout, hkept, hperm⟩ := sweep_eq_some hsweep
  have hqueued := queued_insert p peer peer kept
  rw [if_pos rfl] at hqueued
  refine ⟨?_, ?_, ?_, ?_, ⟨?_, ?_⟩, ?_, fun who hwho => ?_, rfl⟩
  · have hsub : out.Sublist (p.sortedWith peer frame) := by
      rw [hout]
      exact List.filter_sublist.trans (keep_sublist _ _)
    exact ((pairwise_sortByKey _ _).sublist hsub).imp UInt64.le_iff_toNat_le.mpr
  · rw [hqueued]
    -- the frames past the bound come first, and the sweep splits the others
    calc (p.queued peer ++ [frame]).Perm (p.sortedWith peer frame) :=
          (sortedWith_perm p peer frame).symm
      _ = shed maxQueuedFrames (p.sortedWith peer frame) ++
            keep maxQueuedFrames (p.sortedWith peer frame) := (shed_append_keep _ _).symm
      List.Perm _ (shed maxQueuedFrames (p.sortedWith peer frame) ++ (out ++ kept ++
            decided (p.audioNowUs peer now) .dropped
              (keep maxQueuedFrames (p.sortedWith peer frame)))) := hperm.append_left _
      List.Perm _ _ := List.perm_append_comm_assoc _ _ _
  · rw [hqueued, hkept]
    exact (List.length_filter_le _ _).trans (length_keep_le _ _)
  · intro f hf
    rcases List.mem_append.mp hf with hshed | hdropped
    · exact .inr (crowded_of_mem_shed hshed)
    · exact .inl (late_of_decided hdropped)
  · intro hshown
    rw [hout] at hshown
    exact (mem_decided.mp hshown).2
  · intro hdue
    have hin : frame ∈ p.sortedWith peer frame :=
      (sortedWith_perm p peer frame).mem_iff.mpr (List.mem_append_right _ (List.mem_singleton_self _))
    rcases mem_keep_or_shed hin with hstays | hshed
    · rw [hout]
      exact .inl (mem_decided.mpr ⟨hstays, hdue⟩)
    · exact .inr (crowded_of_mem_shed hshed)
  · intro f hf g hg
    rw [hqueued, hkept] at hg
    rw [hout] at hf
    exact apart_of_decided hf hg
  · rw [queued_insert, if_neg (Ne.symm hwho)]

end Call

/-! ## Runs -/

inductive VideoStep (α : Type) where
  | noteAudioPlayed (peer : String) (ptsUs : UInt64) (playedAt : Nat)
  | push (peer : String) (frame : QueuedFrame α) (now : Nat)

/-- A playout, with what became of the frames of each peer. -/
structure VideoLog (α : Type) where
  playout : VideoPlayout α
  pushed : String → List (QueuedFrame α)
  shown : String → List (QueuedFrame α)
  discarded : String → List (QueuedFrame α)

namespace VideoLog

def start : VideoLog α where
  playout := .new
  pushed _ := []
  shown _ := []
  discarded _ := []

variable (L : VideoLog α)

def step : VideoStep α → VideoLog α
  | .noteAudioPlayed peer ptsUs playedAt =>
    { L with playout := L.playout.noteAudioPlayed peer ptsUs playedAt }
  | .push peer frame now =>
    match L.playout.push peer frame now with
    | none => L
    | some (playout, out) =>
      { playout
        pushed := fun who => L.pushed who ++ if peer = who then [frame] else []
        shown := fun who => L.shown who ++ if peer = who then out else []
        discarded := fun who =>
          L.discarded who ++ if peer = who then L.playout.lost peer frame now else [] }

/-- The timestamps leave room for the tolerances, and for the time an anchor is steered by. -/
def Roomy (_ : VideoLog α) : VideoStep α → Prop
  | .noteAudioPlayed _ ptsUs _ =>
    ptsUs.toNat + anchorStaleAfter / 1000 + earlyToleranceUs.toNat ≤ 2 ^ 64
  | .push _ frame _ => frame.ptsUs.toNat + lateToleranceUs.toNat < 2 ^ 64

/-- No frame comes after a later one of its sender was shown, unless it is late enough
to be dropped. -/
def InOrder (L : VideoLog α) : VideoStep α → Prop
  | .noteAudioPlayed .. => True
  | .push peer frame now => (∀ f ∈ L.shown peer, f.ptsUs ≤ frame.ptsUs) ∨
    L.playout.decide peer frame.ptsUs now = some .dropped

end VideoLog

/-- What is kept over a run. -/
structure VideoOrderly (L : VideoLog α) : Prop where
  conserved : ∀ peer, (L.pushed peer).Perm
    (L.shown peer ++ L.playout.queued peer ++ L.discarded peer)
  few : ∀ peer, (L.playout.queued peer).length ≤ maxQueuedFrames

/-- No addition overflows when the next frame comes. -/
structure VideoRoom (p : VideoPlayout α) : Prop where
  frames : ∀ peer, ∀ f ∈ p.queued peer, f.ptsUs.toNat + lateToleranceUs.toNat < 2 ^ 64
  anchors : ∀ (peer : String) (a : PlayoutAnchor), p.anchors[peer]? = some a →
    a.ptsUs.toNat + anchorStaleAfter / 1000 + earlyToleranceUs.toNat ≤ 2 ^ 64

section Runs

open VideoPlayout

variable {L : VideoLog α} {p : VideoPlayout α}

theorem toNat_extrapolate_le (a : PlayoutAnchor) (now : Nat) :
    (a.extrapolate now).toNat ≤ a.ptsUs.toNat + (now - a.playedAt) / 1000 := by
  unfold PlayoutAnchor.extrapolate saturatingAdd
  rw [UInt64.toNat_ofNat', UInt64.toNat_ofNat']
  refine (Nat.mod_le _ _).trans ((Nat.min_le_left _ _).trans ?_)
  exact Nat.add_le_add_left (Nat.mod_le _ _) _

theorem VideoRoom.audioNow (h : VideoRoom p) (peer : String) (now : Nat) :
    ∀ n ∈ p.audioNowUs peer now, n.toNat + earlyToleranceUs.toNat < 2 ^ 64 := by
  intro n hn
  rw [VideoPlayout.audioNowUs] at hn
  obtain ⟨a, ha, rfl⟩ := Option.map_eq_some_iff.mp hn
  obtain ⟨hheld, hfresh⟩ := Option.filter_eq_some_iff.mp ha
  have hroom := h.anchors peer a hheld
  have hnow := toNat_extrapolate_le a now
  rw [PlayoutAnchor.isStale, Bool.not_eq_true', decide_eq_false_iff_not] at hfresh
  simp only [anchorStaleAfter] at hfresh hroom
  omega

theorem VideoRoom.push (h : VideoRoom p) (peer : String) {frame : QueuedFrame α} (now : Nat)
    (hframe : frame.ptsUs.toNat + lateToleranceUs.toNat < 2 ^ 64) :
    ∃ p' out, p.push peer frame now = some (p', out) := by
  have hall : ∀ f ∈ keep maxQueuedFrames (p.sortedWith peer frame),
      ∃ d, decideAgainst (p.audioNowUs peer now) f.ptsUs = some d := by
    intro f hf
    refine isSome_decideAgainst ?_ (h.audioNow peer now)
    have hin := (sortedWith_perm p peer frame).mem_iff.mp ((keep_sublist _ _).mem hf)
    rcases List.mem_append.mp hin with hheld | hnew
    · exact h.frames peer f hheld
    · rw [List.mem_singleton.mp hnew]
      exact hframe
  obtain ⟨out, kept, hsweep⟩ := isSome_sweep hall
  rw [VideoPlayout.push, hsweep]
  exact ⟨_, _, rfl⟩

theorem VideoRoom.step (h : VideoRoom L.playout) {s : VideoStep α} (hroomy : L.Roomy s) :
    VideoRoom (L.step s).playout := by
  cases s with
  | noteAudioPlayed peer ptsUs playedAt =>
    refine ⟨h.frames, fun who a ha => ?_⟩
    simp only [VideoLog.step, noteAudioPlayed, ExtTreeMap.getElem?_insert] at ha
    split at ha
    · cases ha
      exact hroomy
    · exact h.anchors who a ha
  | push peer frame now =>
    obtain ⟨p', out, hpush⟩ := h.push peer now hroomy
    have hanswers := answers_push hpush
    simp only [VideoLog.step, hpush]
    refine ⟨fun who f hf => ?_, fun who a ha => h.anchors who a (hanswers.anchors ▸ ha)⟩
    by_cases hwho : who = peer
    · rw [hwho] at hf
      have hin := hanswers.conserved.mem_iff.mpr
        (List.mem_append_left _ (List.mem_append_right _ hf))
      rcases List.mem_append.mp hin with hheld | hnew
      · exact h.frames peer f hheld
      · rw [List.mem_singleton.mp hnew]
        exact hroomy
    · rw [hanswers.others who hwho] at hf
      exact h.frames who f hf

theorem perm_of_answers {pushed shown queued discarded fresh out kept lost : List (QueuedFrame α)}
    (hold : pushed.Perm (shown ++ queued ++ discarded))
    (hcall : (queued ++ fresh).Perm (out ++ kept ++ lost)) :
    (pushed ++ fresh).Perm (shown ++ out ++ kept ++ (discarded ++ lost)) := by
  rw [← Multiset.coe_eq_coe] at hold hcall ⊢
  simp only [← Multiset.coe_add] at hold hcall ⊢
  calc (pushed : Multiset (QueuedFrame α)) + fresh
      = shown + (queued + fresh) + discarded := by
        rw [hold]
        abel
    _ = shown + (out + kept + lost) + discarded := by rw [hcall]
    _ = shown + out + kept + (discarded + lost) := by abel

theorem VideoOrderly.step (h : VideoOrderly L) (s : VideoStep α) : VideoOrderly (L.step s) := by
  cases s with
  | noteAudioPlayed peer ptsUs playedAt => exact ⟨h.conserved, h.few⟩
  | push peer frame now =>
    cases hpush : L.playout.push peer frame now with
    | none =>
      simp only [VideoLog.step, hpush]
      exact h
    | some r =>
      obtain ⟨p', out⟩ := r
      have hanswers := answers_push hpush
      simp only [VideoLog.step, hpush]
      refine ⟨fun who => ?_, fun who => ?_⟩
      · by_cases hwho : peer = who
        · subst hwho
          simp only [if_true]
          exact perm_of_answers (h.conserved peer) hanswers.conserved
        · simp only [if_neg hwho, List.append_nil, hanswers.others who (Ne.symm hwho)]
          exact h.conserved who
      · by_cases hwho : who = peer
        · rw [hwho]
          exact hanswers.few
        · rw [hanswers.others who hwho]
          exact h.few who

/-- What was shown of a sender is in order, and nothing held is older. -/
def Rising (L : VideoLog α) : Prop :=
  ∀ peer, (L.shown peer).Pairwise (fun f g => f.ptsUs ≤ g.ptsUs) ∧
    ∀ f ∈ L.shown peer, ∀ g ∈ L.playout.queued peer, f.ptsUs ≤ g.ptsUs

theorem Rising.step (h : Rising L) {s : VideoStep α} (horder : L.InOrder s) :
    Rising (L.step s) := by
  cases s with
  | noteAudioPlayed peer ptsUs playedAt => exact h
  | push peer frame now =>
    cases hpush : L.playout.push peer frame now with
    | none =>
      simp only [VideoLog.step, hpush]
      exact h
    | some r =>
      obtain ⟨p', out⟩ := r
      have hanswers := answers_push hpush
      simp only [VideoLog.step, hpush]
      intro who
      by_cases hwho : peer = who
      · subst hwho
        simp only [if_true]
        -- what the call shows or holds was held, or has just come
        have hlater : ∀ f ∈ L.shown peer, ∀ g, g ∈ out ∨ g ∈ p'.queued peer →
            f.ptsUs ≤ g.ptsUs := by
          intro f hf g hg
          have hin := hanswers.conserved.mem_iff.mpr
            (List.mem_append_left _ (List.mem_append.mpr hg))
          rcases List.mem_append.mp hin with hheld | hnew
          · exact (h peer).2 f hf g hheld
          · rw [List.mem_singleton.mp hnew] at hg ⊢
            exact (horder.resolve_right (decide_ne_dropped hpush hg)) f hf
        refine ⟨List.pairwise_append.mpr ⟨(h peer).1, hanswers.ordered, fun f hf g hg =>
          hlater f hf g (.inl hg)⟩, fun f hf g hg => ?_⟩
        rcases List.mem_append.mp hf with hold | hnew
        · exact hlater f hold g (.inr hg)
        · exact hanswers.apart f hnew g hg
      · simp only [if_neg hwho, List.append_nil, hanswers.others who (Ne.symm hwho)]
        exact h who

/-- While the timestamps leave room, every frame is answered and accounted for; and what
is shown is in order as long as no frame comes after a later one was shown. -/
theorem video_orderly (steps : List (VideoStep α))
    (h : Along VideoLog.step VideoLog.Roomy .start steps) :
    VideoOrderly (run VideoLog.step .start steps) ∧
    (∀ peer frame now, (run VideoLog.step .start steps).Roomy (.push peer frame now) →
      ∃ p' out, (run VideoLog.step .start steps).playout.push peer frame now = some (p', out) ∧
        (run VideoLog.step .start steps).playout.Answers peer frame now p' out) ∧
    (Along VideoLog.step VideoLog.InOrder .start steps → ∀ peer,
      ((run VideoLog.step .start steps).shown peer).Pairwise fun f g => f.ptsUs ≤ g.ptsUs) := by
  have hroom : VideoRoom (run VideoLog.step .start steps).playout :=
    h.run_inv (fun L : VideoLog α => VideoRoom L.playout) ⟨nofun, nofun⟩
      fun _ _ hroom hroomy => hroom.step hroomy
  refine ⟨?_, fun peer frame now hframe => ?_, fun horder peer => ?_⟩
  · exact run_inv VideoOrderly ⟨fun _ => .refl _, fun _ => Nat.zero_le _⟩
      fun _ s horderly => horderly.step s
  · obtain ⟨p', out, hpush⟩ := hroom.push peer now hframe
    exact ⟨p', out, hpush, answers_push hpush⟩
  · have hrising := horder.run_inv Rising (fun _ => ⟨.nil, nofun⟩)
      fun _ _ hrising hnext => hrising.step hnext
    exact (hrising peer).1

def pictureAt (ptsUs : UInt64) : QueuedFrame Unit :=
  ⟨ptsUs, ()⟩

/-- Two frames that come out of order while the second is due, and one that is late. -/
def reorderedSteps : List (VideoStep Unit) :=
  [.push "alice" (pictureAt 900000) 0, .noteAudioPlayed "alice" 1000000 0,
    .push "alice" (pictureAt 1060000) 0, .push "alice" (pictureAt 1040000) 30000000,
    .noteAudioPlayed "alice" 1200000 60000000, .push "alice" (pictureAt 1100000) 60000000]

theorem reordered_orderly :
    Along VideoLog.step VideoLog.Roomy .start reorderedSteps ∧
      VideoOrderly (run VideoLog.step .start reorderedSteps) ∧
      ((run VideoLog.step .start reorderedSteps).shown "alice").Pairwise
        fun f g => f.ptsUs ≤ g.ptsUs := by
  have hroomy : Along VideoLog.step VideoLog.Roomy .start reorderedSteps := by
    refine ⟨?_, ?_, ?_, ?_, ?_, ?_, trivial⟩
    all_goals exact Nat.le_of_ble_eq_true rfl
  have hinOrder : Along VideoLog.step VideoLog.InOrder .start reorderedSteps := by
    refine ⟨.inl ?_, trivial, .inl ?_, .inl ?_, trivial, .inr ?_, trivial⟩
    all_goals decide +kernel
  exact ⟨hroomy, (video_orderly _ hroomy).1, (video_orderly _ hroomy).2.2 hinOrder "alice"⟩

/-- Six frames are held when the timeline jumps to where they and one older frame are due. -/
def jumpSteps : List (VideoStep Unit) :=
  [.noteAudioPlayed "alice" 0 0,
    .push "alice" (pictureAt 1000000) 0, .push "alice" (pictureAt 1000001) 0,
    .push "alice" (pictureAt 1000002) 0, .push "alice" (pictureAt 1000003) 0,
    .push "alice" (pictureAt 1000004) 0, .push "alice" (pictureAt 1000005) 0,
    .noteAudioPlayed "alice" 1000000 0]

/-- Without a timeline frames are shown as they come; a timestamp near the largest one
overflows; and a frame that is due is crowded out. -/
theorem video_disorderly :
    (∃ steps : List (VideoStep Unit),
      ¬ ((run VideoLog.step .start steps).shown "alice").Pairwise fun f g => f.ptsUs ≤ g.ptsUs) ∧
    (∃ steps : List (VideoStep Unit),
      (run VideoLog.step .start steps).playout.push "alice" (pictureAt 0xFFFFFFFFFFFFFFFF) 0 =
        none) ∧
    ∃ (steps : List (VideoStep Unit)) (p' : VideoPlayout Unit) (out : List (QueuedFrame Unit)),
      (run VideoLog.step .start steps).playout.decide "alice" 999999 0 = some .shown ∧
      (run VideoLog.step .start steps).playout.push "alice" (pictureAt 999999) 0 = some (p', out) ∧
      pictureAt 999999 ∉ out := by
  refine ⟨⟨[.push "alice" (pictureAt 100) 0, .push "alice" (pictureAt 50) 0], by decide +kernel⟩,
    ⟨[.noteAudioPlayed "alice" 0 0], by decide +kernel⟩, jumpSteps, ?_⟩
  have hshown : ((run VideoLog.step .start jumpSteps).playout.push "alice" (pictureAt 999999) 0).map
      (·.2) = some [pictureAt 1000000, pictureAt 1000001, pictureAt 1000002, pictureAt 1000003,
        pictureAt 1000004, pictureAt 1000005] := by
    decide +kernel
  obtain ⟨⟨p', out⟩, hpush, hout⟩ := Option.map_eq_some_iff.mp hshown
  refine ⟨p', out, by decide +kernel, hpush, ?_⟩
  rw [show out = _ from hout]
  decide

end Runs

end ConquerD.Client.Playout
