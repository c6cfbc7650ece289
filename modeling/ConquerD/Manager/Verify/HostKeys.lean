import ConquerD.Lib.Run
import ConquerD.Manager.KnownHosts

/-!
# Whose keys the SSH backend accepts

The check asks whether a key is in the file, under whatever host. It refuses nothing,
so the keys of a host are pinned exactly by what servers present: along runs in which
no server presents another key than one recorded for its host, and none presents the
recorded key of another host as its first, every server that is sent a password has
shown a key recorded for its host.
-/

namespace ConquerD.Manager

open Std (ExtTreeSet)
open Lib.Run Lib.Words

/-! ## Lines of keys -/

section Lines

variable {host : String} {key : HostKey}

/-- A host field that is a word and no comment sign. -/
structure PlainHost (host : String) : Prop where
  word : IsWord host.toList
  no_comment : host.toList.head? ≠ some '#'

theorem keyLine_toList (host : String) (key : HostKey) :
    (KnownHosts.keyLine host key).toList =
      host.toList ++ ' ' :: (key.kind.toList ++ ' ' :: key.data.toList) := by
  have hblank : " ".toList = [' '] := rfl
  simp [KnownHosts.keyLine, HostKey.toOpenssh, hblank]

theorem words_keyLine (h : PlainHost host) :
    words (KnownHosts.keyLine host key).toList =
      [host.toList, key.kind.toList, key.data.toList] := by
  rw [keyLine_toList, words_cons h.word rfl, words_cons key.kind_word rfl,
    words_single key.data_word]

theorem newline_notMem {w : List Char} (h : IsWord w) : '\n' ∉ w := by
  intro hmem
  cases (h.solid _ hmem).symm.trans (by decide : isWhite '\n' = true)

theorem newline_notMem_keyLine (h : PlainHost host) :
    '\n' ∉ (KnownHosts.keyLine host key).toList := by
  rw [keyLine_toList]
  simp [newline_notMem h.word, newline_notMem key.kind_word, newline_notMem key.data_word]

theorem head?_append_of_word {w cs : List Char} (h : IsWord w) : (w ++ cs).head? = w.head? := by
  cases w with
  | nil => exact absurd rfl h.ne_nil
  | cons c w => rfl

theorem trim_keyLine (h : PlainHost host) {blank : List Char}
    (hblank : ∀ c ∈ blank, isWhite c = true) :
    trim (blank ++ (KnownHosts.keyLine host key).toList) =
      (KnownHosts.keyLine host key).toList := by
  refine trim_white_append hblank ?_ ?_
  · intro c hc
    rw [keyLine_toList, head?_append_of_word h.word] at hc
    exact h.word.solid c (List.mem_of_mem_head? hc)
  · intro c hc
    have hsplit : (KnownHosts.keyLine host key).toList =
        (host.toList ++ ' ' :: (key.kind.toList ++ [' '])) ++ key.data.toList := by
      simp [keyLine_toList]
    rw [hsplit, List.getLast?_append_of_ne_nil _ key.data_word.ne_nil] at hc
    exact key.data_word.solid c (List.mem_of_mem_getLast? hc)

theorem parseLine_keyLine (h : PlainHost host) {blank : List Char}
    (hblank : ∀ c ∈ blank, isWhite c = true) :
    parseLine (blank ++ (KnownHosts.keyLine host key).toList) = some (host, key.toOpenssh) := by
  have hne : (KnownHosts.keyLine host key).toList ≠ [] := by
    rw [keyLine_toList]
    simp
  have hhead : (KnownHosts.keyLine host key).toList.head? ≠ some '#' := by
    rw [keyLine_toList, head?_append_of_word h.word]
    exact h.no_comment
  unfold parseLine
  rw [trim_keyLine h hblank, words_keyLine h, if_neg (by simp [hne, hhead])]
  simp [HostKey.toOpenssh]

theorem parseLine_white {blank : List Char} (h : ∀ c ∈ blank, isWhite c = true) :
    parseLine blank = none := by
  unfold parseLine
  rw [trim_white h]
  rfl

theorem entries_appendKey (h : PlainHost host) {file : Option String}
    (hfile : EndsBlank (file.getD "").toList) :
    entries (KnownHosts.appendKey file host key) =
      entries (file.getD "") ++ [(host, key.toOpenssh)] := by
  have hfeed : "\n".toList = ['\n'] := rfl
  have hnoblank : ∀ blank, (∀ c ∈ blank, isWhite c = true) →
      parseLine (blank ++ (KnownHosts.keyLine host key).toList) =
        parseLine (KnownHosts.keyLine host key).toList := by
    intro blank hblank
    rw [parseLine_keyLine h hblank]
    exact (parseLine_keyLine h (fun _ hc => nomatch hc : ∀ c ∈ [], isWhite c = true)).symm
  have happend := filterMap_lines_append (fun _ => parseLine_white) hfile
    (newline_notMem_keyLine h) hnoblank
  have hparse := @parseLine_keyLine host key h [] (fun _ hc => nomatch hc)
  rw [List.nil_append] at hparse
  unfold entries KnownHosts.appendKey
  rw [String.toList_append, String.toList_append, hfeed, happend, hparse]
  rfl

end Lines

/-! ## What is asked -/

/-- A host field names a host by spelling it, or by the rules of the SSH client (lists,
patterns, hashed names), which are a parameter. -/
def Names (pattern : String → String → Bool) (field host : String) : Prop :=
  field = host ∨ pattern field host = true

instance (pattern : String → String → Bool) (field host : String) :
    Decidable (Names pattern field host) :=
  inferInstanceAs (Decidable (_ ∨ _))

def Recorded (pattern : String → String → Bool) (file : Option String) (host : String)
    (key : HostKey) : Prop :=
  ∃ e ∈ entries (file.getD ""), Names pattern e.1 host ∧ e.2 = key.toOpenssh

instance (pattern : String → String → Bool) (file : Option String) (host : String)
    (key : HostKey) : Decidable (Recorded pattern file host key) :=
  inferInstanceAs (Decidable (∃ e ∈ _, _))

/-- The key is the first for the host, or one recorded for it. -/
def NewOrRecorded (pattern : String → String → Bool) (file : Option String) (host : String)
    (key : HostKey) : Prop :=
  (∀ k, ¬ Recorded pattern file host k) ∨ Recorded pattern file host key

namespace SshBackend

variable (pattern : String → String → Bool)

/-- A session knows all keys recorded for its host when it begins. A key is accepted
only as the first of its host or as one recorded for it, and is recorded for it from
then on; no record is lost. Who is sent a password has a key recorded for its host. -/
def Pinned (s : SshBackend) : SshEvent → Prop
  | .connect host => ∀ key, Recorded pattern s.file host key →
      key.toOpenssh ∈ (KnownHosts.load s.file).acceptedKeys
  | .serverKey n key appendFails =>
    (∀ host k, Recorded pattern s.file host k →
        Recorded pattern (s.step (.serverKey n key appendFails)).file host k) ∧
      ∀ session v, s.checkServerKey n key appendFails = some (session, v) →
        v.verdict = some true →
          NewOrRecorded pattern s.file session.host key ∧
            Recorded pattern v.file session.host key
  | .proceed n => ∀ host key, s.reaches n = some (host, key) → Recorded pattern s.file host key

/-- A server presents the first key of its host, or one recorded for it. A key that the
session knows is recorded for its own host. Where it does not know the key, the host is
a plain word and the file ends in a blank line, if it can be written. -/
def Consistent (s : SshBackend) : SshEvent → Prop
  | .serverKey n key appendFails => ∀ session v,
      s.checkServerKey n key appendFails = some (session, v) →
        if key.toOpenssh ∈ session.knownHosts.acceptedKeys then
          Recorded pattern s.file session.host key
        else
          appendFails = true ∨
            (NewOrRecorded pattern s.file session.host key ∧ PlainHost session.host ∧
              EndsBlank (s.file.getD "").toList)
  | _ => True

end SshBackend

/-! ## The check -/

section Check

variable {pattern : String → String → Bool} {file : Option String} {host : String}
  {key : HostKey} {kh : KnownHosts} {appendFails : Bool}

theorem verify_of_known (h : key.toOpenssh ∈ kh.acceptedKeys) :
    kh.verifyOrAcceptNew file host key appendFails = ⟨kh, file, some true⟩ := by
  unfold KnownHosts.verifyOrAcceptNew
  rw [if_pos h]

theorem verify_of_unknown (h : key.toOpenssh ∉ kh.acceptedKeys) (file : Option String)
    (host : String) :
    (kh.verifyOrAcceptNew file host key true).file = file ∧
      (kh.verifyOrAcceptNew file host key true).verdict = none ∧
      (kh.verifyOrAcceptNew file host key false).file = some (KnownHosts.appendKey file host key) ∧
      (kh.verifyOrAcceptNew file host key false).verdict = some true := by
  unfold KnownHosts.verifyOrAcceptNew
  rw [if_neg h, if_neg h]
  exact ⟨rfl, rfl, rfl, rfl⟩

theorem mem_load_of_recorded (h : Recorded pattern file host key) :
    key.toOpenssh ∈ (KnownHosts.load file).acceptedKeys := by
  obtain ⟨e, he, -, hkey⟩ := h
  cases file with
  | none => cases he
  | some raw =>
    have hmem : key.toOpenssh ∈ (entries raw).map (·.2) := List.mem_map.mpr ⟨e, he, hkey⟩
    simpa [KnownHosts.load, parseKnownHosts] using hmem

theorem recorded_appendKey_iff (h : PlainHost host) (hfile : EndsBlank (file.getD "").toList)
    {host' : String} {k : HostKey} :
    Recorded pattern (some (KnownHosts.appendKey file host key)) host' k ↔
      Recorded pattern file host' k ∨
        (Names pattern host host' ∧ key.toOpenssh = k.toOpenssh) := by
  unfold Recorded
  rw [Option.getD_some, entries_appendKey h hfile]
  simp only [List.mem_append, List.mem_singleton, or_and_right, exists_or, exists_eq_left]

end Check

/-! ## One step -/

namespace SshBackend

variable {pattern : String → String → Bool} {s : SshBackend}

theorem check_eq {n : Nat} {key : HostKey} {appendFails : Bool} {session : Session} {v : Verified}
    (h : s.checkServerKey n key appendFails = some (session, v)) :
    s.sessions[n]? = some session ∧
      v = session.knownHosts.verifyOrAcceptNew s.file session.host key appendFails := by
  unfold checkServerKey at h
  split at h
  · cases h
  · rename_i session' hsession
    split at h
    · cases h
    · cases h
      exact ⟨hsession, rfl⟩

theorem check_records {n : Nat} {key : HostKey} {appendFails : Bool} {session : Session}
    {v : Verified} (hcheck : s.checkServerKey n key appendFails = some (session, v))
    (hcond : s.Consistent pattern (.serverKey n key appendFails)) :
    (∀ host k, Recorded pattern s.file host k → Recorded pattern v.file host k) ∧
      (v.verdict = some true → NewOrRecorded pattern s.file session.host key ∧
        Recorded pattern v.file session.host key) := by
  have hcond := hcond session v hcheck
  obtain ⟨-, rfl⟩ := check_eq hcheck
  by_cases hknown : key.toOpenssh ∈ session.knownHosts.acceptedKeys
  · rw [if_pos hknown] at hcond
    rw [verify_of_known hknown]
    exact ⟨fun _ _ => id, fun _ => ⟨.inr hcond, hcond⟩⟩
  · rw [if_neg hknown] at hcond
    have hunknown := verify_of_unknown hknown s.file session.host
    cases appendFails with
    | true =>
      rw [hunknown.1, hunknown.2.1]
      exact ⟨fun _ _ => id, fun h => nomatch h⟩
    | false =>
      rcases hcond with hfails | ⟨hnew, hplain, hends⟩
      · cases hfails
      · rw [hunknown.2.2.1]
        refine ⟨fun host k h => (recorded_appendKey_iff hplain hends).mpr (.inl h), fun _ => ?_⟩
        exact ⟨hnew, (recorded_appendKey_iff hplain hends).mpr (.inr ⟨.inl rfl, rfl⟩)⟩

def TrustedRecorded (pattern : String → String → Bool) (s : SshBackend) : Prop :=
  ∀ n host key, s.reaches n = some (host, key) → Recorded pattern s.file host key

theorem reaches_eq_some {n : Nat} {host : String} {key : HostKey} :
    s.reaches n = some (host, key) ↔
      ∃ session, s.sessions[n]? = some session ∧ session.host = host ∧
        session.phase = .trusted key := by
  unfold reaches
  cases s.sessions[n]? with
  | none => simp
  | some session =>
    cases hphase : session.phase with
    | greeting => simp [hphase]
    | closed => simp [hphase]
    | trusted k => simp [hphase]

theorem TrustedRecorded.step (h : TrustedRecorded pattern s) {e : SshEvent}
    (hcond : s.Consistent pattern e) : TrustedRecorded pattern (s.step e) := by
  cases e with
  | proceed n => exact h
  | connect host =>
    intro n host' key hreach
    obtain ⟨session, hsession, hhost, hphase⟩ := reaches_eq_some.mp hreach
    refine h n host' key (reaches_eq_some.mpr ⟨session, ?_, hhost, hphase⟩)
    simp only [SshBackend.step] at hsession
    rw [List.getElem?_append] at hsession
    split at hsession
    · exact hsession
    · -- the new session has not been checked
      have hnew := List.mem_of_getElem? hsession
      rw [List.mem_singleton] at hnew
      subst hnew
      cases hphase
  | serverKey n key appendFails =>
    cases hcheck : s.checkServerKey n key appendFails with
    | none =>
      have hsame : s.step (.serverKey n key appendFails) = s := by
        simp only [SshBackend.step, hcheck]
      rw [hsame]
      exact h
    | some found =>
      obtain ⟨session, v⟩ := found
      obtain ⟨hkept, haccepted⟩ := check_records hcheck hcond
      have hstep : s.step (.serverKey n key appendFails) =
          { file := v.file
            sessions := s.sessions.set n
              { session with
                knownHosts := v.knownHosts
                phase := if v.verdict = some true then .trusted key else .closed } } := by
        simp only [SshBackend.step, hcheck]
      intro m host' key' hreach
      rw [hstep] at hreach ⊢
      obtain ⟨session', hsession', hhost, hphase⟩ := reaches_eq_some.mp hreach
      simp only [List.getElem?_set] at hsession'
      split at hsession'
      · split at hsession'
        · cases hsession'
          simp only at hphase hhost
          split at hphase
          · rename_i hverdict
            cases hphase
            exact hhost ▸ (haccepted hverdict).2
          · cases hphase
        · cases hsession'
      · exact hkept host' key' (h m host' key'
          (reaches_eq_some.mpr ⟨session', hsession', hhost, hphase⟩))

theorem pinned_step (h : TrustedRecorded pattern s) {e : SshEvent}
    (hcond : s.Consistent pattern e) : s.Pinned pattern e := by
  cases e with
  | connect host => exact fun key => mem_load_of_recorded
  | proceed n => exact h n
  | serverKey n key appendFails =>
    refine ⟨?_, fun session v hcheck => (check_records hcheck hcond).2⟩
    intro host k hrecorded
    cases hcheck : s.checkServerKey n key appendFails with
    | none =>
      simp only [SshBackend.step, hcheck]
      exact hrecorded
    | some found =>
      simp only [SshBackend.step, hcheck]
      exact (check_records hcheck hcond).1 host k hrecorded

/-! ## Runs -/

/-- Along runs in which servers present the first key of their host or one recorded for
it, and no first key is recorded for another host, keys are pinned: what is accepted is
recorded for its host and stays so, and passwords go to recorded keys only. -/
theorem host_keys_pinned (pattern : String → String → Bool) (file : Option String)
    (es : List SshEvent) (h : Along step (Consistent pattern) (start file) es) :
    Along step (Pinned pattern) (start file) es := by
  refine h.imp_inv (TrustedRecorded pattern) ?_ ?_ ?_
  · intro n host key hreach
    simp [start, reaches] at hreach
  · exact fun s e hs hcond => hs.step hcond
  · exact fun s e hs hcond => pinned_step hs hcond

/-! ## Two keys -/

def firstKey : HostKey where
  kind := "ssh-ed25519"
  data := "AAAAC3NzaC1lZDI1NTE5AAAAIAbcd"
  kind_word := .of_all (by decide) (by decide)
  data_word := .of_all (by decide) (by decide)

def otherKey : HostKey where
  kind := "ssh-ed25519"
  data := "AAAAC3NzaC1lZDI1NTE5AAAAIEfgh"
  kind_word := .of_all (by decide) (by decide)
  data_word := .of_all (by decide) (by decide)

/-- Two connections to one host, each with a password. -/
def twoLogins : List SshEvent :=
  [.connect "203.0.113.10", .serverKey 0 firstKey false, .proceed 0,
    .connect "203.0.113.10", .serverKey 1 firstKey false, .proceed 1]

theorem twoLogins_consistent :
    Along step (Consistent fun _ _ => false) (start none) twoLogins := by
  refine ⟨trivial, ?_, trivial, trivial, ?_, trivial, trivial⟩
  · intro session v hcheck
    obtain ⟨hsession, -⟩ := check_eq hcheck
    cases hsession
    rw [if_neg (by decide +kernel)]
    refine .inr ⟨.inl ?_, ⟨.of_all (by decide) (by decide), by decide⟩, by decide⟩
    rintro k ⟨e, he, -⟩
    cases he
  · intro session v hcheck
    obtain ⟨hsession, -⟩ := check_eq hcheck
    cases hsession
    rw [if_pos (by decide +kernel)]
    decide +kernel

theorem host_keys_pinned_twoLogins :
    Along step (Pinned fun _ _ => false) (start none) twoLogins :=
  host_keys_pinned _ none twoLogins twoLogins_consistent

/-- A host with a recorded key presents another one, which is accepted. -/
theorem changed_key_is_accepted :
    ¬ ∀ (pattern : String → String → Bool) (file : Option String) (es : List SshEvent),
      Along step (Pinned pattern) (start file) es := by
  intro h
  have hrun := h (fun _ _ => false)
    (some "203.0.113.10 ssh-ed25519 AAAAC3NzaC1lZDI1NTE5AAAAIAbcd\n")
    [.connect "203.0.113.10", .serverKey 0 otherKey false]
  obtain ⟨hnew, -⟩ := hrun.2.1.2 _ _ rfl (by decide +kernel)
  rcases hnew with hnew | hrecorded
  · exact hnew firstKey (by decide +kernel)
  · revert hrecorded
    decide +kernel

end SshBackend

end ConquerD.Manager
