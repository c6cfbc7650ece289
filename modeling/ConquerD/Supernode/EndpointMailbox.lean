import ConquerD.Lib.Run
import Mathlib.Algebra.Order.Ring.Rat
import Mathlib.Data.List.Dedup
import Mathlib.Data.List.Pairwise
import Mathlib.Tactic.Linarith
import Std.Data.ExtTreeMap

/-!
# Supernode: the endpoint mailbox

The last endpoint update of every sender waits in a mailbox for peers that come
back. Each update writes the whole mailbox to a file, every entry with the time
of the write; a start loads the entries whose time is less than a day ago. So
the stamp of an entry is not when it was received, and an old entry lives on
as long as others keep updating.
-/

namespace ConquerD.Supernode

open Std (ExtTreeMap)
open Lib.Run

def endpointMaxAgeS : Rat := 86400

/-- An entry of the file. -/
structure MailboxEntry where
  peerId : String
  raw : String
  storedAt : Rat
  deriving DecidableEq

abbrev EndpointMailbox : Type := ExtTreeMap String String

/-- What is written of the mailbox. -/
def saveEndpointMailbox (mailbox : EndpointMailbox) (now : Rat) : List MailboxEntry :=
  mailbox.toList.map fun e => ⟨e.1, e.2, now⟩

/-- The entry is kept when it is loaded. -/
def keepsEntry (now : Rat) (entry : MailboxEntry) : Bool :=
  !(entry.peerId.isEmpty || entry.raw.isEmpty) && !decide (endpointMaxAgeS < now - entry.storedAt)

def loadEndpointMailbox (file : Option (List MailboxEntry)) (now : Rat) : EndpointMailbox :=
  (file.getD []).foldl
    (fun result entry => if keepsEntry now entry then result.insert entry.peerId entry.raw else result)
    ∅

/-! ## Runs -/

/-- An update as it was received. -/
structure EndpointUpdate where
  sender : String
  raw : String
  time : Rat

inductive MailboxOp where
  | update (sender raw : String)
  | restart
  | load

/-- An operation some time after the one before. -/
structure TimedOp where
  wait : {d : Rat // 0 ≤ d}
  op : MailboxOp

/-- The mailbox, the file, the clock, and all updates received so far, the last first. -/
structure MailboxState where
  mailbox : EndpointMailbox
  file : Option (List MailboxEntry)
  clock : Rat
  received : List EndpointUpdate

namespace MailboxState

def start : MailboxState := ⟨∅, none, 0, []⟩

variable (s : MailboxState)

/-- The time of an operation. -/
def timeOf (t : TimedOp) : Rat := s.clock + t.wait.1

def onEndpointUpdate (now : Rat) (sender raw : String) : MailboxState :=
  let mailbox := s.mailbox.insert sender raw
  { mailbox := mailbox, file := some (saveEndpointMailbox mailbox now), clock := now,
    received := ⟨sender, raw, now⟩ :: s.received }

/-- The mailbox in memory is gone, and the file is loaded. -/
def restart (now : Rat) : MailboxState :=
  { s with mailbox := loadEndpointMailbox s.file now, clock := now }

def step (t : TimedOp) : MailboxState :=
  match t.op with
  | .update sender raw => s.onEndpointUpdate (s.timeOf t) sender raw
  | .restart => s.restart (s.timeOf t)
  | .load => { s with clock := s.timeOf t }

/-- The last update of a sender. -/
def latest (sender : String) : Option EndpointUpdate :=
  s.received.find? fun u => u.sender = sender

/-- What a load at the time gives. -/
def loaded (now : Rat) : EndpointMailbox :=
  loadEndpointMailbox s.file now

/-- A load gives of every sender the latest update, when it is not older than a
day, and nothing else. -/
def Fresh (now : Rat) : Prop :=
  ∀ sender, (s.loaded now)[sender]? =
    ((s.latest sender).filter fun u => decide (now - u.time ≤ endpointMaxAgeS)).map (·.raw)

/-- The file is loaded at this operation. -/
def Loads (t : TimedOp) : Prop :=
  t.op = .restart ∨ t.op = .load

/-- Every load of the run is fresh. -/
def Law (t : TimedOp) : Prop :=
  Loads t → s.Fresh (s.timeOf t)

/-- A load keeps no entry whose sender's last update is older than a day, and
there is no recent update without a sender or a text. -/
def Sound (t : TimedOp) : Prop :=
  Loads t →
    (∀ entry ∈ s.file.getD [], keepsEntry (s.timeOf t) entry = true →
      ∀ u, s.latest entry.peerId = some u → s.timeOf t - u.time ≤ endpointMaxAgeS) ∧
    ∀ sender u, s.latest sender = some u → s.timeOf t - u.time ≤ endpointMaxAgeS →
      sender ≠ "" ∧ u.raw ≠ ""

end MailboxState

/-! ## What is loaded -/

theorem getElem?_load {file : Option (List MailboxEntry)}
    (hkeys : ((file.getD []).map MailboxEntry.peerId).Nodup) (now : Rat) (sender : String) :
    (loadEndpointMailbox file now)[sender]? =
      (((file.getD []).find? fun entry => entry.peerId = sender).filter (keepsEntry now)).map
        MailboxEntry.raw := by
  have hfold : ∀ (entries : List MailboxEntry) (m : EndpointMailbox),
      (entries.map MailboxEntry.peerId).Nodup → (∀ e ∈ entries, m[e.peerId]? = none) →
      (entries.foldl (fun result entry =>
        if keepsEntry now entry then result.insert entry.peerId entry.raw else result) m)[sender]? =
        ((entries.find? fun entry => entry.peerId = sender).elim m[sender]? fun entry =>
          if keepsEntry now entry then some entry.raw else none) := by
    intro entries
    induction entries with
    | nil => intro m _ _; rfl
    | cons entry entries ih =>
      intro m hnodup hfree
      rw [List.map_cons, List.nodup_cons] at hnodup
      have hentry := hfree entry List.mem_cons_self
      have hothers : ∀ e ∈ entries, e.peerId ≠ entry.peerId := by
        intro e he heq
        exact hnodup.1 (heq ▸ List.mem_map_of_mem he)
      have hfree' : ∀ e ∈ entries, (if keepsEntry now entry then m.insert entry.peerId entry.raw
          else m)[e.peerId]? = none := by
        intro e he
        split
        · rw [ExtTreeMap.getElem?_insert]
          rw [if_neg (by simpa using (hothers e he).symm)]
          exact hfree e (List.mem_cons_of_mem _ he)
        · exact hfree e (List.mem_cons_of_mem _ he)
      rw [List.foldl_cons, ih _ hnodup.2 hfree', List.find?_cons]
      by_cases hs : entry.peerId = sender
      · subst hs
        have hnone : entries.find? (fun e => decide (e.peerId = entry.peerId)) = none := by
          rw [List.find?_eq_none]
          intro e he
          simpa using hothers e he
        rw [hnone]
        by_cases hkeep : keepsEntry now entry <;> simp [hkeep, hentry]
      · have hsame : (if keepsEntry now entry then m.insert entry.peerId entry.raw
            else m)[sender]? = m[sender]? := by
          split
          · rw [ExtTreeMap.getElem?_insert, if_neg (by simpa using hs)]
          · rfl
        rw [hsame]
        simp [hs]
  have hempty := hfold (file.getD []) ∅ hkeys fun e _ => by simp
  rw [loadEndpointMailbox, hempty]
  cases (file.getD []).find? fun entry => entry.peerId = sender with
  | none => simp
  | some entry => by_cases hkeep : keepsEntry now entry <;> simp [hkeep, Option.filter]

theorem find?_eq_some_of_mem {entries : List MailboxEntry}
    (hkeys : (entries.map MailboxEntry.peerId).Nodup) {entry : MailboxEntry}
    (hmem : entry ∈ entries) :
    (entries.find? fun e => e.peerId = entry.peerId) = some entry := by
  induction entries with
  | nil => cases hmem
  | cons e entries ih =>
    rw [List.map_cons, List.nodup_cons] at hkeys
    rcases List.mem_cons.mp hmem with rfl | hmem
    · simp
    · have hne : e.peerId ≠ entry.peerId := fun heq => hkeys.1 (heq ▸ List.mem_map_of_mem hmem)
      rw [List.find?_cons_of_neg (by simpa using hne)]
      exact ih hkeys.2 hmem

theorem keepsEntry_iff {now : Rat} {entry : MailboxEntry} : keepsEntry now entry = true ↔
    entry.peerId ≠ "" ∧ entry.raw ≠ "" ∧ now - entry.storedAt ≤ endpointMaxAgeS := by
  simp [keepsEntry, and_assoc]

namespace MailboxState

variable {s : MailboxState}

structure Inv (s : MailboxState) : Prop where
  keys : ((s.file.getD []).map MailboxEntry.peerId).Nodup
  /-- All entries have one stamp, which is not before any update. -/
  stamped : ∃ stamp, (∀ entry ∈ s.file.getD [], entry.storedAt = stamp) ∧
    ∀ u ∈ s.received, u.time ≤ stamp
  filed : ∀ entry ∈ s.file.getD [], ∃ u, s.latest entry.peerId = some u ∧ u.raw = entry.raw
  held : ∀ sender raw, s.mailbox[sender]? = some raw →
    ∃ u, s.latest sender = some u ∧ u.raw = raw
  /-- The file has lost nothing that is not too old by now. -/
  fileKeeps : ∀ sender u, s.latest sender = some u → sender ≠ "" → u.raw ≠ "" →
    (∃ entry ∈ s.file.getD [], entry.peerId = sender ∧ entry.raw = u.raw) ∨
      endpointMaxAgeS < s.clock - u.time
  keeps : ∀ sender u, s.latest sender = some u → sender ≠ "" → u.raw ≠ "" →
    s.mailbox[sender]? = some u.raw ∨ endpointMaxAgeS < s.clock - u.time
  past : ∀ u ∈ s.received, u.time ≤ s.clock

theorem inv_start : start.Inv where
  keys := .nil
  stamped := by
    refine ⟨0, ?_, ?_⟩
    · intro entry hentry
      cases hentry
    · intro u hu
      cases hu
  filed := fun _ h => nomatch h
  held := by
    intro sender raw h
    simp [start] at h
  fileKeeps := fun _ _ h => nomatch h
  keeps := fun _ _ h => nomatch h
  past := fun _ h => nomatch h

theorem clock_le_timeOf (s : MailboxState) (t : TimedOp) : s.clock ≤ s.timeOf t :=
  le_add_of_nonneg_right t.wait.2

theorem Inv.later (h : s.Inv) {now : Rat} (hnow : s.clock ≤ now) :
    Inv { s with clock := now } where
  keys := h.keys
  stamped := h.stamped
  filed := h.filed
  held := h.held
  fileKeeps := by
    intro sender u hu hsender hraw
    refine (h.fileKeeps sender u hu hsender hraw).imp_right fun haged => ?_
    show endpointMaxAgeS < now - u.time
    linarith
  keeps := by
    intro sender u hu hsender hraw
    refine (h.keeps sender u hu hsender hraw).imp_right fun haged => ?_
    show endpointMaxAgeS < now - u.time
    linarith
  past := fun u hu => (h.past u hu).trans hnow

theorem Inv.find?_entry (h : s.Inv) {entry : MailboxEntry} (hmem : entry ∈ s.file.getD []) :
    ((s.file.getD []).find? fun e => e.peerId = entry.peerId) = some entry :=
  find?_eq_some_of_mem h.keys hmem

theorem Inv.loaded_eq_some_iff (h : s.Inv) {now : Rat} {sender raw : String} :
    (s.loaded now)[sender]? = some raw ↔
      ∃ entry ∈ s.file.getD [], entry.peerId = sender ∧ entry.raw = raw ∧
        keepsEntry now entry = true := by
  rw [loaded, getElem?_load h.keys]
  constructor
  · intro hsome
    obtain ⟨entry, hentry, rfl⟩ := Option.map_eq_some_iff.mp hsome
    obtain ⟨hfind, hkeep⟩ := Option.filter_eq_some_iff.mp hentry
    have hpeer := List.find?_some hfind
    exact ⟨entry, List.mem_of_find?_eq_some hfind, by simpa using hpeer, rfl, hkeep⟩
  · rintro ⟨entry, hmem, rfl, rfl, hkeep⟩
    rw [h.find?_entry hmem, Option.filter_some, if_pos hkeep]
    rfl

theorem mem_of_latest {sender : String} {u : EndpointUpdate} (h : s.latest sender = some u) :
    u ∈ s.received ∧ u.sender = sender := by
  have hsender := List.find?_some h
  exact ⟨List.mem_of_find?_eq_some h, by simpa using hsender⟩

theorem Inv.keepsEntry_of_recent (h : s.Inv) {now : Rat} {entry : MailboxEntry}
    (hmem : entry ∈ s.file.getD []) {u : EndpointUpdate} (hu : u ∈ s.received)
    (hage : now - u.time ≤ endpointMaxAgeS) (hpeer : entry.peerId ≠ "") (hraw : entry.raw ≠ "") :
    keepsEntry now entry = true := by
  obtain ⟨stamp, hstamp, hreceived⟩ := h.stamped
  rw [keepsEntry_iff, hstamp entry hmem]
  have hle := hreceived u hu
  exact ⟨hpeer, hraw, by linarith⟩

theorem Inv.restart (h : s.Inv) {now : Rat} (hnow : s.clock ≤ now) : (s.restart now).Inv where
  keys := h.keys
  stamped := h.stamped
  filed := h.filed
  held := by
    intro sender raw hsome
    obtain ⟨entry, hmem, rfl, rfl, -⟩ := h.loaded_eq_some_iff.mp hsome
    exact h.filed entry hmem
  fileKeeps := (h.later hnow).fileKeeps
  keeps := by
    intro sender u hu hsender hraw
    rcases (h.later hnow).fileKeeps sender u hu hsender hraw with ⟨entry, hmem, rfl, hsame⟩ | haged
    · by_cases hage : now - u.time ≤ endpointMaxAgeS
      · left
        have hkeep := h.keepsEntry_of_recent hmem (mem_of_latest hu).1 hage hsender (hsame ▸ hraw)
        exact h.loaded_eq_some_iff.mpr ⟨entry, hmem, rfl, hsame, hkeep⟩
      · exact .inr (not_le.mp hage)
    · exact .inr haged
  past := (h.later hnow).past

theorem latest_onEndpointUpdate (now : Rat) (sender raw other : String) :
    (s.onEndpointUpdate now sender raw).latest other =
      if sender = other then some ⟨sender, raw, now⟩ else s.latest other := by
  rw [latest, onEndpointUpdate, List.find?_cons]
  by_cases hs : sender = other
  · simp [hs]
  · simp [hs, latest]

theorem Inv.onEndpointUpdate (h : s.Inv) {now : Rat} (hnow : s.clock ≤ now)
    (sender raw : String) : (s.onEndpointUpdate now sender raw).Inv := by
  have hheld : ∀ other text, (s.mailbox.insert sender raw)[other]? = some text →
      ∃ u, (s.onEndpointUpdate now sender raw).latest other = some u ∧ u.raw = text := by
    intro other text hsome
    rw [latest_onEndpointUpdate]
    rw [ExtTreeMap.getElem?_insert] at hsome
    by_cases hs : sender = other
    · rw [if_pos hs]
      rw [if_pos (by simpa using hs)] at hsome
      exact ⟨_, rfl, Option.some.inj hsome⟩
    · rw [if_neg hs]
      rw [if_neg (by simpa using hs)] at hsome
      exact h.held other text hsome
  have hkeeps : ∀ other u, (s.onEndpointUpdate now sender raw).latest other = some u →
      other ≠ "" → u.raw ≠ "" → (s.mailbox.insert sender raw)[other]? = some u.raw ∨
        endpointMaxAgeS < now - u.time := by
    intro other u hu hother hraw
    rw [latest_onEndpointUpdate] at hu
    rw [ExtTreeMap.getElem?_insert]
    by_cases hs : sender = other
    · rw [if_pos hs] at hu
      rw [if_pos (by simpa using hs), ← Option.some.inj hu]
      exact .inl rfl
    · rw [if_neg hs] at hu
      rw [if_neg (by simpa using hs)]
      exact (h.later hnow).keeps other u hu hother hraw
  have hpast : ∀ u ∈ (s.onEndpointUpdate now sender raw).received, u.time ≤ now := by
    intro u hu
    rcases List.mem_cons.mp hu with rfl | hu
    · exact le_refl now
    · exact (h.past u hu).trans hnow
  have hentries : ∀ entry : MailboxEntry, entry ∈ saveEndpointMailbox (s.mailbox.insert sender raw) now →
      (s.mailbox.insert sender raw)[entry.peerId]? = some entry.raw ∧ entry.storedAt = now := by
    intro entry hentry
    obtain ⟨e, he, rfl⟩ := List.mem_map.mp hentry
    exact ⟨ExtTreeMap.mem_toList_iff_getElem?_eq_some.mp he, rfl⟩
  constructor
  · show ((saveEndpointMailbox (s.mailbox.insert sender raw) now).map MailboxEntry.peerId).Nodup
    have hfst : (MailboxEntry.peerId ∘ fun e : String × String => (⟨e.1, e.2, now⟩ : MailboxEntry)) =
        Prod.fst := rfl
    rw [saveEndpointMailbox, List.map_map, hfst, ExtTreeMap.map_fst_toList_eq_keys]
    exact ExtTreeMap.nodup_keys
  · exact ⟨now, fun entry hentry => (hentries entry hentry).2, hpast⟩
  · intro entry hentry
    exact hheld _ _ (hentries entry hentry).1
  · exact hheld
  · intro other u hu hother hraw
    refine (hkeeps other u hu hother hraw).imp_left fun hsome => ?_
    refine ⟨⟨other, u.raw, now⟩, ?_, rfl, rfl⟩
    exact List.mem_map.mpr ⟨(other, u.raw), ExtTreeMap.mem_toList_iff_getElem?_eq_some.mpr hsome, rfl⟩
  · exact hkeeps
  · exact hpast

theorem Inv.step (h : s.Inv) (t : TimedOp) : (s.step t).Inv := by
  have hnow := s.clock_le_timeOf t
  unfold MailboxState.step
  cases t.op with
  | update sender raw => exact h.onEndpointUpdate hnow sender raw
  | restart => exact h.restart hnow
  | load => exact h.later hnow

/-! ## Age -/

theorem Inv.fresh_iff (h : s.Inv) {now : Rat} (hnow : s.clock ≤ now) :
    s.Fresh now ↔
      (∀ entry ∈ s.file.getD [], keepsEntry now entry = true →
        ∀ u, s.latest entry.peerId = some u → now - u.time ≤ endpointMaxAgeS) ∧
      ∀ sender u, s.latest sender = some u → now - u.time ≤ endpointMaxAgeS →
        sender ≠ "" ∧ u.raw ≠ "" := by
  constructor
  · intro hfresh
    refine ⟨?_, ?_⟩
    · intro entry hmem hkeep u hu
      have hsome := h.loaded_eq_some_iff.mpr ⟨entry, hmem, rfl, rfl, hkeep⟩
      rw [hfresh, hu] at hsome
      obtain ⟨u', hu', -⟩ := Option.map_eq_some_iff.mp hsome
      obtain ⟨rfl, hage⟩ := Option.filter_eq_some_iff.mp hu' |>.imp_left Option.some.inj
      exact of_decide_eq_true hage
    · intro sender u hu hage
      have hsome := hfresh sender
      rw [hu, Option.filter_some, if_pos (decide_eq_true hage), Option.map_some] at hsome
      obtain ⟨entry, -, rfl, hraw, hkeep⟩ := h.loaded_eq_some_iff.mp hsome
      obtain ⟨hpeer, hne, -⟩ := keepsEntry_iff.mp hkeep
      exact ⟨hpeer, hraw ▸ hne⟩
  · rintro ⟨hold, hnamed⟩ sender
    cases hu : s.latest sender with
    | none =>
      rw [Option.filter_none, Option.map_none, Option.eq_none_iff_forall_ne_some]
      intro raw hsome
      obtain ⟨entry, hmem, rfl, -, -⟩ := h.loaded_eq_some_iff.mp hsome
      obtain ⟨u, hu', -⟩ := h.filed entry hmem
      rw [hu] at hu'
      cases hu'
    | some u =>
      rw [Option.filter_some]
      by_cases hage : now - u.time ≤ endpointMaxAgeS
      · rw [if_pos (decide_eq_true hage), Option.map_some]
        obtain ⟨hsender, hraw⟩ := hnamed sender u hu hage
        rcases h.fileKeeps sender u hu hsender hraw with ⟨entry, hmem, rfl, hsame⟩ | haged
        · have hkeep :=
            h.keepsEntry_of_recent hmem (mem_of_latest hu).1 hage hsender (hsame ▸ hraw)
          exact h.loaded_eq_some_iff.mpr ⟨entry, hmem, rfl, hsame, hkeep⟩
        · linarith
      · rw [if_neg (by simpa using hage), Option.map_none, Option.eq_none_iff_forall_ne_some]
        intro raw hsome
        obtain ⟨entry, hmem, rfl, -, hkeep⟩ := h.loaded_eq_some_iff.mp hsome
        exact hage (hold entry hmem hkeep u hu)

/-- The mailbox after a load, exactly: along a run every load gives the latest
update of every sender that is not older than a day and no other, as long as no
load keeps an entry that was received longer ago, and no recent update is
without a sender or a text. -/
theorem loads_fresh_iff (ops : List TimedOp) :
    Along MailboxState.step Law start ops ↔ Along MailboxState.step Sound start ops := by
  refine along_congr_inv Inv inv_start (fun _ t h => h.step t) fun s t h => ?_
  exact forall_congr' fun _ => h.fresh_iff (s.clock_le_timeOf t)

/-- An operation of the example that follows. -/
def after (wait : Nat) (op : MailboxOp) : TimedOp :=
  ⟨⟨(wait : Rat), Nat.cast_nonneg wait⟩, op⟩

/-- alice's update is two days old when it is loaded, as bob's has stamped it again. -/
theorem old_entry_stamped_again :
    let s := run MailboxState.step start
      [after 0 (.update "alice" "a"), after 80000 (.update "bob" "b"), after 80000 .restart]
    s.mailbox["alice"]? = some "a" ∧
      (s.latest "alice").map (fun u => decide (endpointMaxAgeS < s.clock - u.time)) = some true := by
  decide +kernel

end MailboxState

end ConquerD.Supernode
