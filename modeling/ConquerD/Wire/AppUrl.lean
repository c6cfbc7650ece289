import ConquerD.Lib.Slice
import ConquerD.Lib.Words
import Mathlib.Data.List.Dedup
import Mathlib.Data.List.Sort

/-!
# Invite links

An invite is published as an https link with its payload in the fragment. What a
user pastes may also be the hand-off form with a custom scheme; both are reduced
to one remainder, `action#payload` or a bare payload. Schemes, host and path are
compared without case. In a longer text the first link is looked for by the bytes
at which one may start; it is the first one by characters too.
-/

namespace ConquerD.Wire.AppUrl

open Lib.Encoding Lib.Slice Lib.Words

/-- Host serving the https invite landing page. -/
def inviteHttpsHost : String := "doubleslash.space"

/-- Invite paths by the action they stand for. -/
def httpsInvitePaths : List (String × String) := [("invite", "/i"), ("room", "/r")]

/-- Schemes an invite hand-off is accepted on, longest first. -/
def handoffSchemes : List String := ["doubleslash", "d"]

def mintInviteHttps (action encoded : String) : String :=
  "https://" ++ inviteHttpsHost ++
    (((httpsInvitePaths.find? fun e => e.1 == action).map Prod.snd).getD "/i") ++ "#" ++ encoded

/-! ## Reduction -/

/-- The rest after a prefix written in lower case, whatever its case in the text. -/
def stripLower (lower : String) (cs : List Char) : Option (List Char) :=
  if (cs.take lower.toList.length).map Char.toLower = lower.toList then
    some (cs.drop lower.toList.length)
  else none

def stripOptional (lower : String) (cs : List Char) : List Char :=
  (stripLower lower cs).getD cs

/-- The action and the fragment of an https invite. -/
def stripHttpsInvite (url : List Char) : Option (String × List Char) := do
  let rest ← (stripLower "https://" url).or (stripLower "http://" url)
  let rest ← stripLower inviteHttpsHost (stripOptional "www." rest)
  let (action, rest) ← httpsInvitePaths.findSome? fun e =>
    (stripLower e.2 rest).map fun rest => (e.1, rest)
  match stripOptional "/" rest with
  | '#' :: payload => if payload = [] then none else some (action, payload)
  | _ => none

/-- What follows one of the schemes and a separator. -/
def stripSchemeIn (schemes : List String) (url : List Char) : Option (List Char) :=
  ["://", ":/"].findSome? fun sep => schemes.findSome? fun scheme => stripLower (scheme ++ sep) url

/-- The remainder of an accepted link. -/
def normalizeAppUrl (url : String) : Option String :=
  match stripHttpsInvite url.toList with
  | some (action, payload) => some (action ++ "#" ++ String.ofList payload)
  | none => (stripSchemeIn handoffSchemes url.toList).map String.ofList

/-- What stands before the first `#` and what after it; all is payload when
there is none. -/
def splitAction (rest : String) : String × String :=
  match rest.toList.dropWhile (· ≠ '#') with
  | _ :: payload => (String.ofList (rest.toList.takeWhile (· ≠ '#')), String.ofList payload)
  | [] => ("", rest)

/-! ## Minted links -/

theorem stripLower_append {lower : String} (front cs : List Char)
    (hlower : front.map Char.toLower = lower.toList) :
    stripLower lower (front ++ cs) = some cs := by
  have hlength : lower.toList.length = front.length := by rw [← hlower, List.length_map]
  rw [stripLower, hlength, List.take_left, List.drop_left, if_pos hlower]

theorem stripHttpsInvite_mint {payload : List Char} (hne : payload ≠ []) :
    stripHttpsInvite ("https://doubleslash.space/i#".toList ++ payload) =
      some ("invite", payload) := by
  have hparts : "https://doubleslash.space/i#".toList =
      "https://".toList ++ (inviteHttpsHost.toList ++ ("/i".toList ++ ['#'])) := by decide +kernel
  have hscheme : ∀ rest, stripLower "https://" ("https://".toList ++ rest) = some rest :=
    fun rest => stripLower_append _ rest (by decide)
  have hwww : ∀ rest, stripOptional "www." (inviteHttpsHost.toList ++ rest) =
      inviteHttpsHost.toList ++ rest := fun _ => rfl
  have hhost : ∀ rest, stripLower inviteHttpsHost (inviteHttpsHost.toList ++ rest) = some rest :=
    fun rest => stripLower_append _ rest (by decide)
  have hpath : ∀ rest, stripLower "/i" ("/i".toList ++ rest) = some rest :=
    fun rest => stripLower_append _ rest (by decide)
  have haction : (httpsInvitePaths.findSome? fun e =>
      (stripLower e.2 ("/i".toList ++ '#' :: payload)).map fun rest => (e.1, rest)) =
        some ("invite", '#' :: payload) := by
    rw [httpsInvitePaths, List.findSome?_cons, hpath]
    rfl
  have hslash : stripOptional "/" ('#' :: payload) = '#' :: payload := rfl
  rw [stripHttpsInvite, hparts]
  simp only [List.append_assoc, List.cons_append, List.nil_append]
  rw [hscheme, Option.some_or]
  simp only [Option.bind_eq_bind, Option.bind_some, hwww, hhost, haction, hslash, if_neg hne]

theorem normalizeAppUrl_mint {encoded : String} (hne : encoded ≠ "") :
    normalizeAppUrl (mintInviteHttps "invite" encoded) = some ("invite#" ++ encoded) := by
  have htext : (mintInviteHttps "invite" encoded).toList =
      "https://doubleslash.space/i#".toList ++ encoded.toList := by
    rw [mintInviteHttps, String.toList_append]
    rfl
  have hlist : encoded.toList ≠ [] := fun h => hne (String.toList_eq_nil_iff.mp h)
  rw [normalizeAppUrl, htext, stripHttpsInvite_mint hlist]
  change some ("invite" ++ "#" ++ String.ofList encoded.toList) = _
  rw [String.ofList_toList]
  rfl

theorem splitAction_invite (encoded : String) :
    splitAction ("invite#" ++ encoded) = ("invite", encoded) := by
  have htext : ("invite#" ++ encoded).toList = "invite#".toList ++ encoded.toList :=
    String.toList_append
  have hdrop : ("invite#".toList ++ encoded.toList).dropWhile (· ≠ '#') = '#' :: encoded.toList := by
    simp [List.dropWhile]
  have htake : ("invite#".toList ++ encoded.toList).takeWhile (· ≠ '#') = "invite".toList := by
    simp [List.takeWhile]
  rw [splitAction, htext, hdrop, htake]
  change ("invite", String.ofList encoded.toList) = _
  rw [String.ofList_toList]

/-! ## Payloads -/

theorem utf8ByteSize_b64UrlEncode (bs : Bytes) :
    (b64UrlEncode bs).utf8ByteSize = (4 * bs.length + 2) / 3 := by
  have hone : ∀ c ∈ (b64UrlEncode bs).toList, c.utf8Size = 1 := by
    rw [b64UrlEncode, String.toList_ofList]
    fun_induction b64UrlChars bs with
    | case1 => simp
    | case2 a n => simp [utf8Size_b64UrlChar]
    | case3 a b n => simp [utf8Size_b64UrlChar]
    | case4 a b c rest n ih => simpa [utf8Size_b64UrlChar] using ih
  rw [utf8ByteSize_eq, utf8Len_of_oneByte hone, b64UrlEncode, String.toList_ofList,
    length_b64UrlChars]

theorem b64UrlEncode_ne_empty {bs : Bytes} (h : bs ≠ []) : b64UrlEncode bs ≠ "" := by
  intro hempty
  have hsize := utf8ByteSize_b64UrlEncode bs
  rw [hempty] at hsize
  have hpos := List.length_pos_iff.mpr h
  have hzero : "".utf8ByteSize = 0 := rfl
  omega

/-! ## Hand-off links -/

def mintHandoffUri (rest : String) : String :=
  "doubleslash://" ++ rest

/-! ## Links by their bytes

The slices of a text are taken at numbers of bytes, and a slice that does not
fall between two characters panics; the functions below give nothing then. The
numbers are found in a copy of the text in lower case.
-/

/-- Skips the first of the prefixes the text goes on with. -/
def skipFirst (lower : List Char) (off : Nat) : List String → Option Nat
  | [] => some off
  | pre :: pres => do
    let rest ← sliceFrom? off lower
    if pre.toList.isPrefixOf rest then some (off + pre.utf8ByteSize) else skipFirst lower off pres

def stripHttpsInvite? (url : List Char) : Option (Option (String × List Char)) := do
  let lower := url.map Char.toLower
  let off ← skipFirst lower 0 ["https://", "http://"]
  if off = 0 then some none
  else
    let off ← skipFirst lower off ["www."]
    let rest ← sliceFrom? off lower
    if inviteHttpsHost.toList.isPrefixOf rest then
      let off := off + inviteHttpsHost.utf8ByteSize
      let rest ← sliceFrom? off lower
      match httpsInvitePaths.find? fun e => e.2.toList.isPrefixOf rest with
      | some (action, path) =>
        let off ← skipFirst lower (off + path.utf8ByteSize) ["/"]
        -- the text itself is asked for the rest and does not panic
        match sliceFrom? off url with
        | some ('#' :: payload) => some (if payload = [] then none else some (action, payload))
        | _ => some none
      | none => some none
    else some none

/-- The text is asked for its head and does not panic; its rest is sliced. -/
def stripScheme? (url : List Char) (scheme sep : String) : Option (Option (List Char)) :=
  let n := scheme.utf8ByteSize + sep.utf8ByteSize
  match sliceTo? (String.ofList url) n with
  | none => some none
  | some head =>
    match sliceTo? head scheme.utf8ByteSize, sliceFrom? scheme.utf8ByteSize head.toList with
    | some got, some tail =>
      if got.toList.map Char.toLower = scheme.toList.map Char.toLower ∧ tail = sep.toList then
        (sliceFrom? n url).map some
      else some none
    | _, _ => some none

def stripSchemeIn? (schemes : List String) (url : List Char) : Option (Option (List Char)) :=
  ["://", ":/"].findSomeM? fun sep => schemes.findSomeM? fun scheme => stripScheme? url scheme sep

def normalizeAppUrl? (url : List Char) : Option (Option String) := do
  match ← stripHttpsInvite? url with
  | some (action, payload) => some (some (action ++ "#" ++ String.ofList payload))
  | none => some ((← stripSchemeIn? handoffSchemes url).map String.ofList)

/-- A link ends before white space, a quote or an angle bracket. -/
def endsLink (c : Char) : Bool :=
  isWhite c || c == '"' || c == '\'' || c == '<' || c == '>'

def needles : List String := ["https://", "http://", "doubleslash://", "d://"]

/-- No ASCII letter or digit stands before the byte. -/
def continuesNoWord (lower : List Char) (pos : Nat) : Option Bool :=
  if pos = 0 then some true
  else (bytesOf lower)[pos - 1]?.map fun b => !isAsciiAlphanumeric b

/-- The bytes at which the needle is found and continues no word, from one byte on. -/
def needleStarts (lower needle : List Char) : Nat → Nat → Option (List Nat)
  | 0, _ => none
  | fuel + 1, off => do
    let rest ← sliceFrom? off lower
    match findBytes needle rest with
    | none => some []
    | some rel =>
      let pos := off + rel
      let free ← continuesNoWord lower pos
      let starts ← needleStarts lower needle fuel (pos + 1)
      some (if free then pos :: starts else starts)

def linkAt? (text : List Char) (start : Nat) : Option (Option String) := do
  let rest ← sliceFrom? start text
  let candidate ← sliceTo? (String.ofList rest)
    (String.utf8Len (rest.takeWhile fun c => !endsLink c))
  let accepted ← normalizeAppUrl? candidate.toList
  some (if accepted.isSome then some candidate else none)

def findAppUrl? (text : String) : Option (Option String) := do
  let lower := text.toList.map Char.toLower
  let found ← needles.mapM fun needle => needleStarts lower needle.toList (lower.length + 1) 0
  ((found.flatten.insertionSort (· ≤ ·)).dedup).findSomeM? (linkAt? text.toList)

example : findAppUrl? "\"d://é\" https://doubleslash.space/i#aB" = some (some "d://é") := by
  decide +kernel

/-! ## The bytes and the characters -/

theorem toNat_toLower (c : Char) :
    c.toLower.toNat = if 65 ≤ c.toNat ∧ c.toNat ≤ 90 then c.toNat + 32 else c.toNat := by
  unfold Char.toLower
  have hcond : (c.val ≥ 'A'.val ∧ c.val ≤ 'Z'.val) ↔ 65 ≤ c.toNat ∧ c.toNat ≤ 90 := by
    rw [ge_iff_le, UInt32.le_iff_toNat_le, UInt32.le_iff_toNat_le]
    rfl
  split
  · next h =>
    have hle := hcond.mp h
    rw [if_pos hle]
    show (c.val + ('a'.val - 'A'.val)).toNat = c.toNat + 32
    have hsum : (c.val + ('a'.val - 'A'.val)).toNat = (c.toNat + 32) % 2 ^ 32 := rfl
    omega
  · next h => rw [if_neg (mt hcond.mpr h)]

theorem utf8Size_toLower (c : Char) : c.toLower.utf8Size = c.utf8Size := by
  have hsize : ∀ d : Char, d.toNat ≤ 127 → d.utf8Size = 1 := by
    intro d hd
    have hle : d.val ≤ UInt32.ofNatLT 0x7F (by decide) := UInt32.le_iff_toNat_le.mpr hd
    exact if_pos hle
  have hlower := toNat_toLower c
  by_cases hc : 65 ≤ c.toNat ∧ c.toNat ≤ 90
  · rw [if_pos hc] at hlower
    rw [hsize _ (by omega), hsize _ (by omega)]
  · rw [if_neg hc] at hlower
    rw [Char.toNat_inj.mp hlower]

theorem isAlphanum_iff (c : Char) : c.isAlphanum = true ↔
    (65 ≤ c.toNat ∧ c.toNat ≤ 90) ∨ (97 ≤ c.toNat ∧ c.toNat ≤ 122) ∨
      (48 ≤ c.toNat ∧ c.toNat ≤ 57) := by
  delta Char.isAlphanum Char.isAlpha Char.isUpper Char.isLower Char.isDigit
  simp [UInt32.le_iff_toNat_le, or_assoc]

theorem isAlphanum_toLower (c : Char) : c.toLower.isAlphanum = c.isAlphanum := by
  rw [Bool.eq_iff_iff, isAlphanum_iff, isAlphanum_iff, toNat_toLower]
  split <;> omega

theorem toLower_eq_iff {c d : Char} (hd : d.isAlphanum = false) : c.toLower = d ↔ c = d := by
  have hnot := mt (isAlphanum_iff d).mpr (by simp [hd])
  rw [← Char.toNat_inj, ← Char.toNat_inj, toNat_toLower]
  split <;> omega

theorem utf8Len_map_toLower (cs : List Char) :
    String.utf8Len (cs.map Char.toLower) = String.utf8Len cs := by
  induction cs with
  | nil => rfl
  | cons c cs ih => rw [List.map_cons, String.utf8Len_cons, String.utf8Len_cons, ih, utf8Size_toLower]

theorem sliceFrom?_toLower (front rest : List Char) :
    sliceFrom? (String.utf8Len front) ((front ++ rest).map Char.toLower) =
      some (rest.map Char.toLower) := by
  rw [List.map_append, ← utf8Len_map_toLower front, sliceFrom?_utf8Len]

theorem stripLower_eq_some_iff {lower : String} {cs rest : List Char} :
    stripLower lower cs = some rest ↔
      ∃ front, cs = front ++ rest ∧ front.map Char.toLower = lower.toList := by
  constructor
  · intro h
    unfold stripLower at h
    split at h
    · next hlower =>
      cases h
      exact ⟨_, (List.take_append_drop _ cs).symm, hlower⟩
    · cases h
  · rintro ⟨front, rfl, hlower⟩
    exact stripLower_append front rest hlower

theorem isPrefixOf_toLower (pre : String) (cs : List Char) :
    pre.toList.isPrefixOf (cs.map Char.toLower) = (stripLower pre cs).isSome := by
  rw [Bool.eq_iff_iff, List.isPrefixOf_iff_prefix, Option.isSome_iff_exists]
  constructor
  · rintro ⟨tail, htail⟩
    obtain ⟨front, rest, rfl, hfront, -⟩ := List.map_eq_append_iff.mp htail.symm
    exact ⟨rest, stripLower_append front rest hfront⟩
  · rintro ⟨rest, hrest⟩
    obtain ⟨front, rfl, hfront⟩ := stripLower_eq_some_iff.mp hrest
    exact ⟨rest.map Char.toLower, by rw [List.map_append, hfront]⟩

theorem utf8Len_of_lowered {front : List Char} {pre : String}
    (h : front.map Char.toLower = pre.toList) : String.utf8Len front = pre.utf8ByteSize := by
  rw [← utf8Len_map_toLower, h, utf8ByteSize_eq]

section Cursor

variable (front : List Char) {rest : List Char} {pres : List String}

theorem skipFirst_of_none (h : (pres.findSome? fun pre => stripLower pre rest) = none) :
    skipFirst ((front ++ rest).map Char.toLower) (String.utf8Len front) pres =
      some (String.utf8Len front) := by
  induction pres with
  | nil => rfl
  | cons pre pres ih =>
    rw [List.findSome?_cons] at h
    cases hpre : stripLower pre rest with
    | some rest' => rw [hpre] at h; cases h
    | none =>
      rw [hpre] at h
      rw [skipFirst, sliceFrom?_toLower, Option.bind_eq_bind, Option.bind_some, isPrefixOf_toLower,
        hpre, Option.isSome_none, if_neg Bool.false_ne_true, ih h]

theorem skipFirst_of_some {rest' : List Char}
    (h : (pres.findSome? fun pre => stripLower pre rest) = some rest') :
    ∃ pre ∈ pres, ∃ skipped, rest = skipped ++ rest' ∧ skipped.map Char.toLower = pre.toList ∧
      skipFirst ((front ++ rest).map Char.toLower) (String.utf8Len front) pres =
        some (String.utf8Len (front ++ skipped)) := by
  induction pres with
  | nil => cases h
  | cons pre pres ih =>
    rw [List.findSome?_cons] at h
    rw [skipFirst, sliceFrom?_toLower, Option.bind_eq_bind, Option.bind_some, isPrefixOf_toLower]
    cases hpre : stripLower pre rest with
    | some tail =>
      rw [hpre] at h
      cases h
      obtain ⟨skipped, rfl, hskipped⟩ := stripLower_eq_some_iff.mp hpre
      refine ⟨pre, List.mem_cons_self, skipped, rfl, hskipped, ?_⟩
      rw [Option.isSome_some, if_pos rfl, String.utf8Len_append, utf8Len_of_lowered hskipped]
    | none =>
      rw [hpre] at h
      obtain ⟨pre', hmem, skipped, hrest, hskipped, hskip⟩ := ih h
      refine ⟨pre', List.mem_cons_of_mem _ hmem, skipped, hrest, hskipped, ?_⟩
      rw [Option.isSome_none, if_neg Bool.false_ne_true, hskip]

end Cursor

theorem skipFirst_optional (front rest : List Char) (pre : String) :
    ∃ skipped, rest = skipped ++ stripOptional pre rest ∧
      skipFirst ((front ++ rest).map Char.toLower) (String.utf8Len front) [pre] =
        some (String.utf8Len (front ++ skipped)) := by
  have hone : ([pre].findSome? fun pre => stripLower pre rest) = stripLower pre rest := by
    cases h : stripLower pre rest <;> simp [h]
  unfold stripOptional
  cases h : stripLower pre rest with
  | none =>
    refine ⟨[], rfl, ?_⟩
    rw [skipFirst_of_none front (by rw [hone, h]), List.append_nil]
  | some rest' =>
    obtain ⟨-, -, skipped, hrest, -, hskip⟩ := skipFirst_of_some front (by rw [hone, h])
    exact ⟨skipped, hrest, hskip⟩

section Paths

variable {paths : List (String × String)} {rest : List Char}

theorem findSome?_path_of_none
    (h : (paths.find? fun e => (stripLower e.2 rest).isSome) = none) :
    (paths.findSome? fun e => (stripLower e.2 rest).map fun rest => (e.1, rest)) = none := by
  rw [List.findSome?_eq_none_iff]
  intro e he
  have hnot := List.find?_eq_none.mp h e he
  rw [Option.not_isSome_iff_eq_none] at hnot
  rw [hnot, Option.map_none]

theorem findSome?_path_of_some {e : String × String}
    (h : (paths.find? fun e => (stripLower e.2 rest).isSome) = some e) :
    ∃ rest', stripLower e.2 rest = some rest' ∧
      (paths.findSome? fun e => (stripLower e.2 rest).map fun rest => (e.1, rest)) =
        some (e.1, rest') := by
  induction paths with
  | nil => cases h
  | cons e' paths ih =>
    rw [List.find?_cons] at h
    rw [List.findSome?_cons]
    cases he : stripLower e'.2 rest with
    | some rest' =>
      rw [he] at h
      cases h
      exact ⟨rest', he, rfl⟩
    | none =>
      rw [he] at h
      exact ih h

end Paths

theorem stripHttpsInvite?_eq (url : List Char) :
    stripHttpsInvite? url = some (stripHttpsInvite url) := by
  have hscheme : (stripLower "https://" url).or (stripLower "http://" url) =
      ["https://", "http://"].findSome? fun pre => stripLower pre url := by
    rw [List.findSome?_cons, List.findSome?_cons, List.findSome?_nil]
    cases stripLower "https://" url <;> cases stripLower "http://" url <;> rfl
  unfold stripHttpsInvite? stripHttpsInvite
  rw [hscheme]
  cases h : (["https://", "http://"].findSome? fun pre => stripLower pre url) with
  | none =>
    have hskip := skipFirst_of_none [] h
    rw [List.nil_append, String.utf8Len_nil] at hskip
    simp [hskip]
  | some rest =>
    obtain ⟨pre, hpre, scheme, rfl, hlower, hskip⟩ := skipFirst_of_some [] h
    rw [List.nil_append, String.utf8Len_nil, List.nil_append] at hskip
    have hpos : String.utf8Len scheme ≠ 0 := by
      rw [utf8Len_of_lowered hlower]
      rcases List.mem_pair.mp hpre with rfl | rfl <;> decide
    obtain ⟨www, hwww, hskip'⟩ := skipFirst_optional scheme rest "www."
    simp only [hskip, Option.bind_eq_bind, Option.bind_some, if_neg hpos, hskip']
    generalize stripOptional "www." rest = rest' at *
    subst hwww
    rw [← List.append_assoc, sliceFrom?_toLower]
    simp only [Option.bind_some, isPrefixOf_toLower]
    cases hhost : stripLower inviteHttpsHost rest' with
    | none => rfl
    | some afterHost =>
      obtain ⟨host, rfl, hlower'⟩ := stripLower_eq_some_iff.mp hhost
      rw [Option.isSome_some, if_pos rfl, ← utf8Len_of_lowered hlower', ← String.utf8Len_append,
        ← List.append_assoc, sliceFrom?_toLower]
      simp only [Option.bind_some, isPrefixOf_toLower]
      cases hfind : httpsInvitePaths.find? fun e => (stripLower e.2 afterHost).isSome with
      | none => rw [findSome?_path_of_none hfind]; rfl
      | some e =>
        obtain ⟨afterPath, hstrip, hsome⟩ := findSome?_path_of_some hfind
        obtain ⟨path, rfl, hlower''⟩ := stripLower_eq_some_iff.mp hstrip
        obtain ⟨slash, hslash, hskip''⟩ :=
          skipFirst_optional (scheme ++ www ++ host ++ path) afterPath "/"
        rw [hsome]
        simp only [← utf8Len_of_lowered hlower'', ← String.utf8Len_append, ← List.append_assoc,
          hskip'', Option.bind_some]
        generalize stripOptional "/" afterPath = fragment at *
        subst hslash
        rw [← List.append_assoc, sliceFrom?_utf8Len]
        cases fragment with
        | nil => rfl
        | cons c payload =>
          by_cases hc : c = '#'
          · subst hc
            rfl
          · simp [hc]

theorem forall_of_all {p : Char → Prop} [DecidablePred p] {cs : List Char}
    (h : (cs.all fun c => decide (p c)) = true) : ∀ c ∈ cs, p c :=
  fun c hc => of_decide_eq_true (List.all_eq_true.mp h c hc)

/-- A scheme and a separator as they are compared: one in lower case, the other
without letters. -/
structure SchemeText (scheme sep : String) : Prop where
  lowered : scheme.toList.map Char.toLower = scheme.toList
  letterless : ∀ c ∈ sep.toList, c.isAlphanum = false

theorem map_toLower_eq_iff {cs ds : List Char} (hds : ∀ d ∈ ds, d.isAlphanum = false) :
    cs.map Char.toLower = ds ↔ cs = ds := by
  induction cs generalizing ds with
  | nil => simp
  | cons c cs ih =>
    cases ds with
    | nil => simp
    | cons d ds =>
      rw [List.map_cons, List.cons.injEq, List.cons.injEq, toLower_eq_iff (hds d List.mem_cons_self),
        ih fun d hd => hds d (List.mem_cons_of_mem _ hd)]

theorem stripScheme?_eq {url : List Char} {scheme sep : String} (h : SchemeText scheme sep) :
    stripScheme? url scheme sep = some (stripLower (scheme ++ sep) url) := by
  have hboth : (scheme ++ sep).toList = scheme.toList ++ sep.toList := String.toList_append
  cases hstrip : stripLower (scheme ++ sep) url with
  | some rest =>
    obtain ⟨front, rfl, hfront⟩ := stripLower_eq_some_iff.mp hstrip
    rw [hboth] at hfront
    obtain ⟨got, tail, rfl, hgot, htail⟩ := List.map_eq_append_iff.mp hfront
    have hsame := (map_toLower_eq_iff h.letterless).mp htail
    subst hsame
    have hn : scheme.utf8ByteSize + sep.utf8ByteSize = String.utf8Len (got ++ sep.toList) := by
      rw [String.utf8Len_append, utf8Len_of_lowered hgot, utf8ByteSize_eq sep]
    rw [stripScheme?, hn, sliceTo?_append]
    simp only [← utf8Len_of_lowered hgot, sliceTo?_append, String.toList_ofList,
      sliceFrom?_utf8Len, hgot, h.lowered]
    simp
  | none =>
    rw [stripScheme?]
    cases hhead : sliceTo? (String.ofList url) (scheme.utf8ByteSize + sep.utf8ByteSize) with
    | none => rfl
    | some head =>
      obtain ⟨after, hurl, -⟩ := of_sliceTo? hhead
      rw [String.toList_ofList] at hurl
      subst hurl
      cases hgot : sliceTo? head scheme.utf8ByteSize with
      | none => simp only [hgot]
      | some got =>
        cases htail : sliceFrom? scheme.utf8ByteSize head.toList with
        | none => simp only [hgot, htail]
        | some tail =>
          -- had the head matched, the text would have been stripped
          have hno : ¬ (got.toList.map Char.toLower = scheme.toList.map Char.toLower ∧
              tail = sep.toList) := by
            rintro ⟨hlower, rfl⟩
            obtain ⟨rest, hrest, hlen⟩ := of_sliceTo? hgot
            rw [hrest, ← hlen, sliceFrom?_utf8Len] at htail
            cases htail
            have hfront : (got.toList ++ sep.toList).map Char.toLower = (scheme ++ sep).toList := by
              rw [List.map_append, hlower, h.lowered, hboth,
                (map_toLower_eq_iff h.letterless).mpr rfl]
            rw [hrest, stripLower_append _ _ hfront] at hstrip
            cases hstrip
          simp only [hgot, htail, if_neg hno]

theorem schemeText_handoff {scheme sep : String} (hscheme : scheme ∈ handoffSchemes)
    (hsep : sep ∈ ["://", ":/"]) : SchemeText scheme sep := by
  rcases List.mem_pair.mp hscheme with rfl | rfl <;> rcases List.mem_pair.mp hsep with rfl | rfl <;>
    exact ⟨by decide, forall_of_all (by decide)⟩

theorem findSomeM?_some {α β : Type} {f : α → Option (Option β)} {g : α → Option β} {l : List α}
    (h : ∀ a ∈ l, f a = some (g a)) : l.findSomeM? f = some (l.findSome? g) := by
  induction l with
  | nil => rfl
  | cons a l ih =>
    have hrest := ih fun b hb => h b (List.mem_cons_of_mem _ hb)
    rw [List.findSomeM?, h a List.mem_cons_self, List.findSome?_cons, Option.bind_eq_bind,
      Option.bind_some]
    cases g a with
    | none => exact hrest
    | some b => rfl

theorem mapM_some {α β : Type} {f : α → Option β} {g : α → β} {l : List α}
    (h : ∀ a ∈ l, f a = some (g a)) : l.mapM f = some (l.map g) := by
  induction l with
  | nil => rfl
  | cons a l ih =>
    rw [List.mapM_cons, h a List.mem_cons_self, ih fun b hb => h b (List.mem_cons_of_mem _ hb)]
    rfl

theorem stripSchemeIn?_eq (url : List Char) :
    stripSchemeIn? handoffSchemes url = some (stripSchemeIn handoffSchemes url) := by
  apply findSomeM?_some
  intro sep hsep
  apply findSomeM?_some
  intro scheme hscheme
  exact stripScheme?_eq (schemeText_handoff hscheme hsep)

theorem normalizeAppUrl?_eq (url : String) :
    normalizeAppUrl? url.toList = some (normalizeAppUrl url) := by
  rw [normalizeAppUrl?, normalizeAppUrl, stripHttpsInvite?_eq, stripSchemeIn?_eq]
  cases stripHttpsInvite url.toList with
  | none => rfl
  | some invite => rfl

/-! ## The first link -/

/-- The last character is an ASCII letter or digit. -/
def glued (front : List Char) : Bool :=
  (front.getLast?.map Char.isAlphanum).getD false

/-- The text goes on with the start of a link, whatever the case. -/
def opensLink (cs : List Char) : Bool :=
  needles.any fun needle => needle.toList.isPrefixOf (cs.map Char.toLower)

/-- What stands before the end of a link. -/
def candidate (cs : List Char) : List Char :=
  cs.takeWhile fun c => !endsLink c

def isLink (cs : List Char) : Bool :=
  opensLink cs && (normalizeAppUrl (String.ofList (candidate cs))).isSome

/-- The first link that continues no word; `word` tells whether one comes before. -/
def firstLink : Bool → List Char → Option String
  | _, [] => none
  | word, c :: cs =>
    if word = false ∧ isLink (c :: cs) = true then some (String.ofList (candidate (c :: cs)))
    else firstLink c.isAlphanum cs

/-- The bytes, counted from `off`, at which the rest of the text is in `p` and
continues no word. -/
def startsOf (p : List Char → Bool) : Nat → Bool → List Char → List Nat
  | _, _, [] => []
  | off, word, c :: cs =>
    let starts := startsOf p (off + c.utf8Size) c.isAlphanum cs
    if word = false ∧ p (c :: cs) = true then off :: starts else starts

@[simp] theorem glued_concat (front : List Char) (c : Char) :
    glued (front ++ [c]) = c.isAlphanum := by
  simp [glued]

theorem getElem?_bytesOf_before {front : List Char} (hne : front ≠ []) (rest : List Char) :
    (bytesOf (front ++ rest))[String.utf8Len front - 1]?.map isAsciiAlphanumeric =
      some (glued front) := by
  obtain ⟨init, d, rfl⟩ := (List.eq_nil_or_concat' front).resolve_left hne
  have hsize := d.utf8Size_pos
  have hbytes : bytesOf (init ++ [d] ++ rest) =
      bytesOf init ++ (String.utf8EncodeChar d ++ bytesOf rest) := by
    simp [bytesOf]
  have hindex : String.utf8Len (init ++ [d]) - 1 = (bytesOf init).length + (d.utf8Size - 1) := by
    rw [length_bytesOf, String.utf8Len_append]
    simp only [String.utf8Len_cons, String.utf8Len_nil]
    omega
  have hlength := String.length_utf8EncodeChar d
  rw [hbytes, hindex, List.getElem?_append_right (Nat.le_add_right _ _), Nat.add_sub_cancel_left,
    List.getElem?_append_left (by omega), glued_concat, ← isAsciiAlphanumeric_getLast,
    List.getLast?_eq_getElem?, hlength]

theorem continuesNoWord_eq (front rest : List Char) :
    continuesNoWord (front ++ rest) (String.utf8Len front) = some (!glued front) := by
  by_cases hnil : front = []
  · subst hnil
    rfl
  · have hpos : String.utf8Len front ≠ 0 := mt String.utf8Len_eq_zero.mp hnil
    have hbyte := getElem?_bytesOf_before hnil rest
    rw [continuesNoWord, if_neg hpos, ← Option.map_some (f := (!·)), ← hbyte, Option.map_map]
    rfl

section Starts

variable {needle : List Char}

theorem needleStarts_eq {c₀ : Char} {tail : List Char} (hneedle : needle = c₀ :: tail)
    (hone : c₀.utf8Size = 1) {lower rest : List Char} {front : List Char}
    (hlower : lower = front ++ rest) {fuel : Nat} (hfuel : rest.length < fuel) :
    needleStarts lower needle fuel (String.utf8Len front) =
      some (startsOf needle.isPrefixOf (String.utf8Len front) (glued front) rest) := by
  subst hneedle
  induction rest generalizing front fuel with
  | nil =>
    obtain ⟨n, rfl⟩ : ∃ n, fuel = n + 1 := ⟨fuel - 1, by simp at hfuel; omega⟩
    rw [needleStarts, hlower, sliceFrom?_utf8Len]
    rfl
  | cons c cs ih =>
    obtain ⟨n, rfl⟩ : ∃ n, fuel = n + 1 := ⟨fuel - 1, by simp at hfuel; omega⟩
    rw [List.length_cons] at hfuel
    have hnext : lower = (front ++ [c]) ++ cs := by simp [hlower]
    have hlen : String.utf8Len (front ++ [c]) = String.utf8Len front + c.utf8Size := by
      simp [String.utf8Len_append, String.utf8Len_cons]
    by_cases hgoes : (c₀ :: tail).isPrefixOf (c :: cs) = true
    · have hc : c₀.utf8Size = c.utf8Size := by
        simp only [List.isPrefixOf, Bool.and_eq_true, beq_iff_eq] at hgoes
        rw [hgoes.1]
      have hrest := ih hnext (show cs.length < n by omega)
      rw [hlen, ← hc, hone] at hrest
      rw [needleStarts, hlower, sliceFrom?_utf8Len, ← hlower]
      simp only [Option.bind_eq_bind, Option.bind_some, findBytes, hgoes, if_true, Nat.add_zero,
        hrest, startsOf, ← hc, hone, glued_concat]
      rw [hlower, continuesNoWord_eq]
      cases glued front <;> simp
    · have hskip : needleStarts lower (c₀ :: tail) (n + 1) (String.utf8Len front) =
          needleStarts lower (c₀ :: tail) (n + 1) (String.utf8Len (front ++ [c])) := by
        rw [needleStarts, needleStarts, hnext, sliceFrom?_utf8Len, ← hnext, hlower,
          sliceFrom?_utf8Len, ← hlower]
        simp only [Option.bind_eq_bind, Option.bind_some, findBytes, if_neg hgoes, hlen]
        cases findBytes (c₀ :: tail) cs with
        | none => rfl
        | some rel => simp only [Option.map_some, Nat.add_assoc]
      rw [hskip, ih hnext (by omega), startsOf, hlen, glued_concat, if_neg (by simp [hgoes])]

theorem le_of_mem_startsOf {p : List Char → Bool} {cs : List Char} {off x : Nat} {word : Bool}
    (h : x ∈ startsOf p off word cs) : off ≤ x := by
  induction cs generalizing off word with
  | nil => cases h
  | cons c cs ih =>
    rw [startsOf] at h
    have hlater : x ∈ startsOf p (off + c.utf8Size) c.isAlphanum cs → off ≤ x :=
      fun hx => Nat.le_trans (Nat.le_add_right _ _) (ih hx)
    split at h
    · rcases List.mem_cons.mp h with rfl | h
      · exact Nat.le_refl _
      · exact hlater h
    · exact hlater h

theorem pairwise_startsOf (p : List Char → Bool) (off : Nat) (word : Bool) (cs : List Char) :
    (startsOf p off word cs).Pairwise (· < ·) := by
  induction cs generalizing off word with
  | nil => exact .nil
  | cons c cs ih =>
    have hpos := c.utf8Size_pos
    rw [startsOf]
    split
    · refine .cons ?_ (ih _ _)
      intro x hx
      have hle := le_of_mem_startsOf hx
      omega
    · exact ih _ _

theorem mem_startsOf_any {ι : Type} (ns : List ι) (q : ι → List Char → Bool) (x off : Nat)
    (word : Bool) (cs : List Char) :
    x ∈ startsOf (fun cs => ns.any fun n => q n cs) off word cs ↔
      ∃ n ∈ ns, x ∈ startsOf (q n) off word cs := by
  induction cs generalizing off word with
  | nil => simp [startsOf]
  | cons c cs ih =>
    have hcons : ∀ p : List Char → Bool, x ∈ startsOf p off word (c :: cs) ↔
        (word = false ∧ p (c :: cs) = true ∧ x = off) ∨
          x ∈ startsOf p (off + c.utf8Size) c.isAlphanum cs := by
      intro p
      rw [startsOf]
      split
      · next h => simp [h.1, h.2]
      · next h =>
        have hno : ¬ (word = false ∧ p (c :: cs) = true ∧ x = off) :=
          fun hx => h ⟨hx.1, hx.2.1⟩
        simp [hno]
    simp only [hcons, ih, List.any_eq_true]
    constructor
    · rintro (⟨hword, ⟨n, hn, hq⟩, hx⟩ | ⟨n, hn, hx⟩)
      · exact ⟨n, hn, .inl ⟨hword, hq, hx⟩⟩
      · exact ⟨n, hn, .inr hx⟩
    · rintro ⟨n, hn, ⟨hword, hq, hx⟩ | hx⟩
      · exact .inl ⟨hword, ⟨n, hn, hq⟩, hx⟩
      · exact .inr ⟨n, hn, hx⟩

end Starts

theorem dedup_insertionSort_eq {l m : List Nat} (hm : m.Pairwise (· < ·))
    (hmem : ∀ x, x ∈ l ↔ x ∈ m) : (l.insertionSort (· ≤ ·)).dedup = m := by
  have hsorted : ((l.insertionSort (· ≤ ·)).dedup).Pairwise (· ≤ ·) :=
    (List.pairwise_insertionSort _ _).sublist (List.dedup_sublist _)
  have hperm : ((l.insertionSort (· ≤ ·)).dedup).Perm m := by
    rw [List.perm_ext_iff_of_nodup (List.nodup_dedup _) (hm.imp Nat.ne_of_lt)]
    intro x
    rw [List.mem_dedup, List.mem_insertionSort, hmem]
  exact hperm.eq_of_pairwise (fun _ _ _ _ => Nat.le_antisymm) hsorted (hm.imp Nat.le_of_lt)

theorem sliceTo?_candidate (cs : List Char) :
    sliceTo? (String.ofList cs) (String.utf8Len (candidate cs)) =
      some (String.ofList (candidate cs)) := by
  have hsplit : cs = candidate cs ++ cs.dropWhile fun c => !endsLink c :=
    List.takeWhile_append_dropWhile.symm
  conv_lhs => rw [hsplit]
  rw [← hsplit, candidate, ← sliceTo?_append, List.takeWhile_append_dropWhile]

theorem linkAt?_eq (front rest : List Char) :
    linkAt? (front ++ rest) (String.utf8Len front) =
      some (if (normalizeAppUrl (String.ofList (candidate rest))).isSome then
        some (String.ofList (candidate rest)) else none) := by
  have hslice := sliceTo?_candidate rest
  rw [candidate] at hslice
  rw [linkAt?, sliceFrom?_utf8Len]
  simp only [Option.bind_eq_bind, Option.bind_some, hslice, normalizeAppUrl?_eq, candidate]
  rfl

theorem findSomeM?_startsOf {text front rest : List Char} (htext : text = front ++ rest) :
    (startsOf (fun cs => needles.any fun needle => needle.toList.isPrefixOf cs)
        (String.utf8Len front) (glued front) (rest.map Char.toLower)).findSomeM? (linkAt? text) =
      some (firstLink (glued front) rest) := by
  induction rest generalizing front with
  | nil => rfl
  | cons c cs ih =>
    have hnext := ih (show text = (front ++ [c]) ++ cs by simp [htext])
    rw [glued_concat, String.utf8Len_append, String.utf8Len_cons, String.utf8Len_nil,
      Nat.zero_add] at hnext
    have hat : linkAt? text (String.utf8Len front) = _ := htext ▸ linkAt?_eq front (c :: cs)
    have hopens : (needles.any fun needle =>
        needle.toList.isPrefixOf (c.toLower :: cs.map Char.toLower)) = opensLink (c :: cs) := rfl
    rw [List.map_cons, startsOf, firstLink, utf8Size_toLower, isAlphanum_toLower, isLink, hopens]
    by_cases hword : glued front = false
    · cases hlink : opensLink (c :: cs) with
      | false => simpa [hword] using hnext
      | true =>
        cases hurl : (normalizeAppUrl (String.ofList (candidate (c :: cs)))).isSome with
        | false =>
          rw [hurl] at hat
          simpa [hword, List.findSomeM?, hat] using hnext
        | true =>
          rw [hurl] at hat
          simp [hword, List.findSomeM?, hat]
    · simpa [hword] using hnext

/-- No slice panics, no loop runs on, and the result is the first link. -/
theorem findAppUrl?_eq (text : String) : findAppUrl? text = some (firstLink false text.toList) := by
  have hstarts : ∀ needle ∈ needles,
      needleStarts (text.toList.map Char.toLower) needle.toList
          ((text.toList.map Char.toLower).length + 1) 0 =
        some (startsOf needle.toList.isPrefixOf 0 false (text.toList.map Char.toLower)) := by
    intro needle hneedle
    have hhead : ∃ c tail, needle.toList = c :: tail ∧ c.utf8Size = 1 := by
      simp only [needles, List.mem_cons, List.not_mem_nil, or_false] at hneedle
      rcases hneedle with rfl | rfl | rfl | rfl <;> exact ⟨_, _, rfl, by decide⟩
    obtain ⟨c, tail, hcons, hone⟩ := hhead
    have hlower : text.toList.map Char.toLower = [] ++ text.toList.map Char.toLower := rfl
    exact needleStarts_eq hcons hone hlower (Nat.lt_succ_self _)
  have hfound : (needles.mapM fun needle =>
      needleStarts (text.toList.map Char.toLower) needle.toList
        ((text.toList.map Char.toLower).length + 1) 0) =
      some (needles.map fun needle =>
        startsOf needle.toList.isPrefixOf 0 false (text.toList.map Char.toLower)) :=
    mapM_some hstarts
  have hsorted := dedup_insertionSort_eq
    (pairwise_startsOf (fun cs => needles.any fun needle => needle.toList.isPrefixOf cs) 0 false
      (text.toList.map Char.toLower))
    (l := (needles.map fun needle =>
      startsOf needle.toList.isPrefixOf 0 false (text.toList.map Char.toLower)).flatten)
    (by
      intro x
      rw [mem_startsOf_any, List.mem_flatten]
      simp)
  rw [findAppUrl?]
  simp only [Option.bind_eq_bind, hfound, Option.bind_some, hsorted]
  have htext : text.toList = [] ++ text.toList := rfl
  exact findSomeM?_startsOf htext

/-! ## What an https invite is -/

/-- The texts in lower case that may stand before the payload of an invite. -/
def inviteStems (action : String) : List (List Char) :=
  ["https://", "http://"].flatMap fun scheme => ["www.", ""].flatMap fun www =>
    (httpsInvitePaths.filter fun e => e.1 = action).flatMap fun e => ["/", ""].map fun slash =>
      scheme.toList ++ (www.toList ++ (inviteHttpsHost.toList ++ (e.2.toList ++
        (slash.toList ++ ['#']))))

/-- An invite without its payload. -/
def InviteStem (action : String) (stem : List Char) : Prop :=
  stem.map Char.toLower ∈ inviteStems action

instance (action : String) (stem : List Char) : Decidable (InviteStem action stem) :=
  inferInstanceAs (Decidable (_ ∈ _))

theorem inviteStem_iff {action : String} {stem : List Char} :
    InviteStem action stem ↔
      ∃ scheme ∈ ["https://", "http://"], ∃ www ∈ ["www.", ""], ∃ path,
        (action, path) ∈ httpsInvitePaths ∧ ∃ slash ∈ ["/", ""],
          stem.map Char.toLower = scheme.toList ++ (www.toList ++ (inviteHttpsHost.toList ++
            (path.toList ++ (slash.toList ++ ['#'])))) := by
  simp only [InviteStem, inviteStems, List.mem_flatMap, List.mem_map, List.mem_filter,
    decide_eq_true_eq]
  constructor
  · rintro ⟨scheme, hscheme, www, hwww, ⟨action', path⟩, ⟨hpath, rfl⟩, slash, hslash, heq⟩
    exact ⟨scheme, hscheme, www, hwww, path, hpath, slash, hslash, heq.symm⟩
  · rintro ⟨scheme, hscheme, www, hwww, path, hpath, slash, hslash, heq⟩
    exact ⟨scheme, hscheme, www, hwww, (action, path), ⟨hpath, rfl⟩, slash, hslash, heq.symm⟩

/-- A text that starts with one prefix is not stripped of another that differs. -/
theorem stripLower_of_clash {pre pre' : String} {front : List Char}
    (hfront : front.map Char.toLower = pre.toList) (h : ¬ pre.toList <+: pre'.toList)
    (h' : ¬ pre'.toList <+: pre.toList) (rest : List Char) :
    stripLower pre' (front ++ rest) = none := by
  rw [Option.eq_none_iff_forall_not_mem]
  intro rest' hrest
  obtain ⟨front', heq, hfront'⟩ := stripLower_eq_some_iff.mp hrest
  have hlower := congrArg (List.map Char.toLower) heq
  rw [List.map_append, List.map_append, hfront, hfront'] at hlower
  rcases List.prefix_or_prefix_of_prefix (List.prefix_append pre.toList _)
    (hlower ▸ List.prefix_append pre'.toList _) with hpre | hpre
  · exact h hpre
  · exact h' hpre

theorem stripOptional_eq_self {pre : String} {cs : List Char} (h : stripLower pre cs = none) :
    stripOptional pre cs = cs := by
  rw [stripOptional, h, Option.getD_none]

theorem exists_stripOptional (pre : String) (cs : List Char) :
    ∃ text ∈ [pre, ""], ∃ skipped, cs = skipped ++ stripOptional pre cs ∧
      skipped.map Char.toLower = text.toList := by
  cases h : stripLower pre cs with
  | none => exact ⟨"", by simp, [], by rw [stripOptional_eq_self h]; rfl, rfl⟩
  | some rest =>
    obtain ⟨skipped, rfl, hlower⟩ := stripLower_eq_some_iff.mp h
    refine ⟨pre, by simp, skipped, ?_, hlower⟩
    rw [stripOptional, h, Option.getD_some]

theorem exists_stem_of_stripHttpsInvite {url payload : List Char} {action : String}
    (h : stripHttpsInvite url = some (action, payload)) :
    payload ≠ [] ∧ ∃ stem, url = stem ++ payload ∧ InviteStem action stem := by
  unfold stripHttpsInvite at h
  simp only [Option.bind_eq_bind, Option.bind_eq_some_iff] at h
  obtain ⟨afterScheme, hfirst, afterHost, hhost, ⟨action', afterPath⟩, hpath, h⟩ := h
  obtain ⟨scheme, hscheme, f₁, rfl, h₁⟩ : ∃ scheme ∈ ["https://", "http://"], ∃ f₁,
      url = f₁ ++ afterScheme ∧ f₁.map Char.toLower = scheme.toList := by
    rcases Option.or_eq_some_iff.mp hfirst with hs | ⟨-, hs⟩ <;>
      obtain ⟨f₁, hurl, h₁⟩ := stripLower_eq_some_iff.mp hs <;>
      exact ⟨_, by simp, f₁, hurl, h₁⟩
  obtain ⟨www, hwww, f₂, hf₂, h₂⟩ := exists_stripOptional "www." afterScheme
  obtain ⟨f₃, hf₃, h₃⟩ := stripLower_eq_some_iff.mp hhost
  obtain ⟨⟨_, path⟩, hmem, he⟩ := List.exists_of_findSome?_eq_some hpath
  obtain ⟨rest, hrest, heq⟩ := Option.map_eq_some_iff.mp he
  cases heq
  obtain ⟨f₄, rfl, h₄⟩ := stripLower_eq_some_iff.mp hrest
  obtain ⟨slash, hslash, f₅, hf₅, h₅⟩ := exists_stripOptional "/" afterPath
  rw [hf₃] at hf₂
  split at h
  · next payload' hfragment =>
    split at h
    · cases h
    · next hne =>
      cases h
      rw [hfragment] at hf₅
      refine ⟨hne, f₁ ++ (f₂ ++ (f₃ ++ (f₄ ++ (f₅ ++ ['#'])))), ?_, ?_⟩
      · rw [hf₂, hf₅]
        simp
      · rw [inviteStem_iff]
        refine ⟨scheme, hscheme, www, hwww, path, hmem, slash, hslash, ?_⟩
        simp only [List.map_append, h₁, h₂, h₃, h₄, h₅]
        rfl
  · cases h

theorem stripHttpsInvite_of_stem {action : String} {stem payload : List Char}
    (hstem : InviteStem action stem) (hne : payload ≠ []) :
    stripHttpsInvite (stem ++ payload) = some (action, payload) := by
  obtain ⟨scheme, hscheme, www, hwww, path, hpath, slash, hslash, heq⟩ := inviteStem_iff.mp hstem
  obtain ⟨f₁, stem, rfl, h₁, heq⟩ := List.map_eq_append_iff.mp heq
  obtain ⟨f₂, stem, rfl, h₂, heq⟩ := List.map_eq_append_iff.mp heq
  obtain ⟨f₃, stem, rfl, h₃, heq⟩ := List.map_eq_append_iff.mp heq
  obtain ⟨f₄, stem, rfl, h₄, heq⟩ := List.map_eq_append_iff.mp heq
  obtain ⟨f₅, stem, rfl, h₅, heq⟩ := List.map_eq_append_iff.mp heq
  obtain rfl : stem = ['#'] := (map_toLower_eq_iff (forall_of_all (by decide))).mp heq
  simp only [List.append_assoc]
  have hfirst : ∀ rest, (stripLower "https://" (f₁ ++ rest)).or
      (stripLower "http://" (f₁ ++ rest)) = some rest := by
    intro rest
    rcases List.mem_pair.mp hscheme with rfl | rfl
    · rw [stripLower_append _ _ h₁, Option.some_or]
    · rw [stripLower_of_clash h₁ (by decide) (by decide), stripLower_append _ _ h₁, Option.none_or]
  have hwww' : ∀ rest, stripOptional "www." (f₂ ++ (f₃ ++ rest)) = f₃ ++ rest := by
    intro rest
    rcases List.mem_pair.mp hwww with rfl | rfl
    · rw [stripOptional, stripLower_append _ _ h₂, Option.getD_some]
    · obtain rfl : f₂ = [] := List.map_eq_nil_iff.mp h₂
      exact stripOptional_eq_self (stripLower_of_clash h₃ (by decide) (by decide) _)
  have hpath' : ∀ rest, (httpsInvitePaths.findSome? fun e =>
      (stripLower e.2 (f₄ ++ rest)).map fun rest => (e.1, rest)) = some (action, rest) := by
    intro rest
    rw [httpsInvitePaths, List.findSome?_cons, List.findSome?_cons]
    rcases List.mem_pair.mp hpath with h | h <;> cases h
    · rw [stripLower_append _ _ h₄]
      rfl
    · rw [stripLower_of_clash h₄ (by decide) (by decide), stripLower_append _ _ h₄]
      rfl
  have hslash' : stripOptional "/" (f₅ ++ (['#'] ++ payload)) = '#' :: payload := by
    rcases List.mem_pair.mp hslash with rfl | rfl
    · rw [stripOptional, stripLower_append _ _ h₅, Option.getD_some]
      rfl
    · obtain rfl : f₅ = [] := List.map_eq_nil_iff.mp h₅
      have hhash : ['#'].map Char.toLower = "#".toList := rfl
      exact stripOptional_eq_self (stripLower_of_clash hhash (by decide) (by decide) _)
  rw [stripHttpsInvite, hfirst]
  simp only [Option.bind_eq_bind, Option.bind_some, hwww', stripLower_append _ _ h₃, hpath',
    hslash', if_neg hne]

/-! ## Links in a text -/

/-- What a published link begins with. -/
def linkHeads : List (List Char) :=
  ["https://doubleslash.space/i#", "https://doubleslash.space/r#", "doubleslash://invite#",
    "doubleslash://room#"].map String.toList

/-- A text that ends no link and has no fragment. -/
def Solid (cs : List Char) : Prop :=
  ∀ c ∈ cs, endsLink c = false ∧ c ≠ '#'

/-- The end of a link, or nothing. -/
def EndsHere (cs : List Char) : Prop :=
  ∀ c ∈ cs.head?, endsLink c = true

theorem normalizeAppUrl_isSome_iff (url : String) : (normalizeAppUrl url).isSome = true ↔
    (stripHttpsInvite url.toList).isSome = true ∨
      (stripSchemeIn handoffSchemes url.toList).isSome = true := by
  unfold normalizeAppUrl
  cases stripHttpsInvite url.toList <;> simp

theorem endsHash_of_inviteStem {action : String} {stem : List Char} (h : InviteStem action stem) :
    ∃ front, stem = front ++ ['#'] := by
  obtain ⟨scheme, -, www, -, path, -, slash, -, heq⟩ := inviteStem_iff.mp h
  rw [← List.append_assoc, ← List.append_assoc, ← List.append_assoc, ← List.append_assoc] at heq
  obtain ⟨front, last, rfl, -, hlast⟩ := List.map_eq_append_iff.mp heq
  exact ⟨front, by rw [(map_toLower_eq_iff (forall_of_all (by decide))).mp hlast]⟩

theorem count_colon_of_inviteStem {action : String} {stem : List Char}
    (h : InviteStem action stem) : stem.count ':' = 1 := by
  have hcount : ∀ cs : List Char, (cs.map Char.toLower).count ':' = cs.count ':' := by
    intro cs
    induction cs with
    | nil => rfl
    | cons c cs ih =>
      have hc : (c.toLower == ':') = (c == ':') := by
        rw [Bool.eq_iff_iff, beq_iff_eq, beq_iff_eq, toLower_eq_iff (by decide)]
      rw [List.map_cons, List.count_cons, List.count_cons, ih, hc]
  have hlisted : ∀ stem ∈ inviteStems "invite" ++ inviteStems "room", stem.count ':' = 1 := by
    decide +kernel
  rw [← hcount]
  apply hlisted
  obtain ⟨-, -, -, -, path, hpath, -⟩ := inviteStem_iff.mp h
  rw [List.mem_append]
  rcases List.mem_pair.mp hpath with hpath | hpath <;> cases hpath
  · exact .inl h
  · exact .inr h

theorem opensLink_iff {cs : List Char} :
    opensLink cs = true ↔ ∃ needle ∈ needles, ∃ rest, stripLower needle cs = some rest := by
  simp only [opensLink, List.any_eq_true, isPrefixOf_toLower, Option.isSome_iff_exists]

/-- What is read of a published head: in lower case, at one scheme, of characters
of a link, open to a link at its first character and at no other. -/
structure HeadSpec (head : List Char) : Prop where
  lower : head.map Char.toLower = head
  opens : opensLink head = true
  solid : (head.all fun c => decide (endsLink c = false)) = true
  scheme : ∃ scheme ∈ ["https:".toList, "doubleslash:".toList], scheme <+: head
  across : ∀ needle ∈ needles, needle.toList.length ≤ head.length ∧
    ∀ k < needle.toList.length, 0 < k → ¬ needle.toList.drop k <+: head

theorem headSpec {head : List Char} (hhead : head ∈ linkHeads) : HeadSpec head := by
  have hlisted : ∀ head ∈ linkHeads, head.map Char.toLower = head ∧ opensLink head = true ∧
      (head.all fun c => decide (endsLink c = false)) = true ∧
      (∃ scheme ∈ ["https:".toList, "doubleslash:".toList], scheme <+: head) ∧
      ∀ needle ∈ needles, needle.toList.length ≤ head.length ∧
        ∀ k < needle.toList.length, 0 < k → ¬ needle.toList.drop k <+: head := by
    decide +kernel
  obtain ⟨hlower, hopens, hsolid, hscheme, hacross⟩ := hlisted head hhead
  exact ⟨hlower, hopens, hsolid, hscheme, hacross⟩

theorem opensLink_of_append {head rest q : List Char} (hhead : head ∈ linkHeads) (hq : q ≠ [])
    (h : opensLink (q ++ (head ++ rest)) = true) : opensLink q = true := by
  obtain ⟨needle, hneedle, tail, htail⟩ := opensLink_iff.mp h
  obtain ⟨front, heq, hfront⟩ := stripLower_eq_some_iff.mp htail
  have hlower := (headSpec hhead).lower
  obtain ⟨hlen, hno⟩ := (headSpec hhead).across needle hneedle
  rcases List.append_eq_append_iff.mp heq with ⟨t, hfront', htail'⟩ | ⟨t, hq', -⟩
  · subst hfront'
    rw [List.map_append] at hfront
    by_cases ht : t = []
    · subst ht
      rw [List.map_nil, List.append_nil] at hfront
      have hself : stripLower needle (q ++ []) = some [] := stripLower_append q [] hfront
      rw [List.append_nil] at hself
      exact opensLink_iff.mpr ⟨needle, hneedle, [], hself⟩
    · exfalso
      have hqlen : 0 < q.length := List.length_pos_iff.mpr hq
      have htlen : 0 < t.length := List.length_pos_iff.mpr ht
      have htotal : q.length + t.length = needle.toList.length := by
        rw [← hfront]
        simp
      have htrest : t <+: head ++ rest := ⟨tail, htail'.symm⟩
      have hthead : t <+: head :=
        List.prefix_of_prefix_length_le htrest (List.prefix_append _ _) (by omega)
      have hdrop : needle.toList.drop q.length = t.map Char.toLower := by
        rw [← hfront, List.drop_append_of_le_length (by simp), List.drop_eq_nil_of_le (by simp)]
        rfl
      apply hno q.length (by omega) hqlen
      rw [hdrop, ← hlower]
      exact hthead.map _
  · subst hq'
    exact opensLink_iff.mpr ⟨needle, hneedle, t, stripLower_append front t hfront⟩

section Candidate

variable {cs link s : List Char}

theorem candidate_append_of_end (h : candidate cs ≠ cs) (rest : List Char) :
    candidate (cs ++ rest) = candidate cs := by
  unfold candidate at h ⊢
  rw [List.takeWhile_append, if_neg]
  intro hlen
  exact h ((List.takeWhile_prefix _).eq_of_length hlen)

theorem candidate_append_link (hcs : candidate cs = cs) (hlink : ∀ c ∈ link, endsLink c = false)
    (hs : EndsHere s) : candidate (cs ++ (link ++ s)) = cs ++ link := by
  have hall : ∀ c ∈ cs ++ link, (!endsLink c) = true := by
    intro c hc
    rcases List.mem_append.mp hc with hc | hc
    · unfold candidate at hcs
      rw [← hcs] at hc
      exact List.mem_takeWhile_imp (p := fun c => !endsLink c) hc
    · rw [hlink c hc]
      rfl
  have hstop : s.takeWhile (fun c => !endsLink c) = [] := by
    cases s with
    | nil => rfl
    | cons c s => simp [hs c rfl]
  rw [candidate, ← List.append_assoc, List.takeWhile_append_of_pos hall, hstop, List.append_nil]

end Candidate

structure Published (link : List Char) : Prop where
  split : ∃ head ∈ linkHeads, ∃ payload, link = head ++ payload ∧ payload ≠ [] ∧ Solid payload

theorem Published.solid {link : List Char} (h : Published link) :
    ∀ c ∈ link, endsLink c = false := by
  obtain ⟨head, hhead, payload, rfl, -, hsolid⟩ := h.split
  intro c hc
  rcases List.mem_append.mp hc with hc | hc
  · exact forall_of_all (headSpec hhead).solid c hc
  · exact (hsolid c hc).1

theorem Published.colon_mem {link front : List Char} (h : Published link)
    (hfront : front <+: link) (hhash : '#' ∈ front) : ':' ∈ front := by
  obtain ⟨head, hhead, payload, rfl, -, -⟩ := h.split
  obtain ⟨scheme, hscheme, hprefixed⟩ := (headSpec hhead).scheme
  have hmarks : '#' ∉ scheme ∧ ':' ∈ scheme := by
    rcases List.mem_pair.mp hscheme with rfl | rfl <;> decide
  rcases List.prefix_or_prefix_of_prefix hfront (hprefixed.trans (List.prefix_append _ _))
    with hshort | hlong
  · exact absurd (hshort.subset hhash) hmarks.1
  · exact hlong.subset hmarks.2

theorem colon_mem_of_opensLink {q : List Char} (h : opensLink q = true) : ':' ∈ q := by
  obtain ⟨needle, hneedle, rest, hrest⟩ := opensLink_iff.mp h
  obtain ⟨front, rfl, hfront⟩ := stripLower_eq_some_iff.mp hrest
  have hneedles : ∀ needle ∈ needles, ':' ∈ needle.toList := by decide
  have hmem := hneedles needle hneedle
  rw [← hfront] at hmem
  obtain ⟨c, hc, hlower⟩ := List.mem_map.mp hmem
  rw [toLower_eq_iff (by decide)] at hlower
  exact List.mem_append_left _ (hlower ▸ hc)

theorem isSome_stripSchemeIn_iff {schemes : List String} {url : List Char} :
    (stripSchemeIn schemes url).isSome = true ↔
      ∃ sep ∈ ["://", ":/"], ∃ scheme ∈ schemes, (stripLower (scheme ++ sep) url).isSome = true := by
  simp only [stripSchemeIn, List.findSome?_isSome_iff]

theorem not_handoff_of_http {front : List Char} {needle : String}
    (hfront : front.map Char.toLower = needle.toList) (hneedle : needle ∈ ["https://", "http://"])
    (rest : List Char) : ¬ ∃ sep ∈ ["://", ":/"], ∃ scheme ∈ handoffSchemes,
      (stripLower (scheme ++ sep) (front ++ rest)).isSome = true := by
  rintro ⟨sep, hsep, scheme, hscheme, hsome⟩
  have hclash : ∀ needle ∈ ["https://", "http://"], ∀ sep ∈ ["://", ":/"],
      ∀ scheme ∈ handoffSchemes, ¬ needle.toList <+: (scheme ++ sep).toList ∧
        ¬ (scheme ++ sep).toList <+: needle.toList := by
    decide +kernel
  obtain ⟨h, h'⟩ := hclash needle hneedle sep hsep scheme hscheme
  rw [stripLower_of_clash hfront h h'] at hsome
  cases hsome

theorem accepted_of_append {q link : List Char} (hlink : Published link)
    (hopens : opensLink q = true)
    (h : (normalizeAppUrl (String.ofList (q ++ link))).isSome = true) :
    (normalizeAppUrl (String.ofList q)).isSome = true ∨ ∃ action, InviteStem action q := by
  rw [normalizeAppUrl_isSome_iff, String.toList_ofList] at h ⊢
  rcases h with h | h
  · obtain ⟨⟨action, payload⟩, hinvite⟩ := Option.isSome_iff_exists.mp h
    obtain ⟨hne, stem, heq, hstem⟩ := exists_stem_of_stripHttpsInvite hinvite
    rcases List.append_eq_append_iff.mp heq with ⟨t, rfl, ht⟩ | ⟨t, rfl, -⟩
    · by_cases hnil : t = []
      · rw [hnil, List.append_nil] at hstem
        exact .inr ⟨action, hstem⟩
      · exfalso
        -- the stem would have a colon of each text
        obtain ⟨front, hfront⟩ := endsHash_of_inviteStem hstem
        have hlast : t.getLast? = some '#' := by
          have hboth := congrArg List.getLast? hfront
          rw [List.getLast?_append_of_ne_nil _ hnil, List.getLast?_concat] at hboth
          exact hboth
        have hcolon := hlink.colon_mem ⟨payload, ht.symm⟩ (List.mem_of_getLast? hlast)
        have hcount := count_colon_of_inviteStem hstem
        have hleft := List.count_pos_iff.mpr (colon_mem_of_opensLink hopens)
        have hright := List.count_pos_iff.mpr hcolon
        rw [List.count_append] at hcount
        omega
    · by_cases hnil : t = []
      · rw [hnil, List.append_nil]
        exact .inr ⟨action, hstem⟩
      · left
        left
        rw [stripHttpsInvite_of_stem hstem hnil]
        rfl
  · left
    right
    obtain ⟨needle, hneedle, rest, hrest⟩ := opensLink_iff.mp hopens
    obtain ⟨front, rfl, hfront⟩ := stripLower_eq_some_iff.mp hrest
    rw [isSome_stripSchemeIn_iff] at h ⊢
    simp only [List.append_assoc] at h
    simp only [needles, List.mem_cons, List.not_mem_nil, or_false] at hneedle
    rcases hneedle with rfl | rfl | rfl | rfl
    · exact absurd h (not_handoff_of_http hfront (by simp) _)
    · exact absurd h (not_handoff_of_http hfront (by simp) _)
    · have hscheme : front.map Char.toLower = ("doubleslash" ++ "://").toList := hfront
      refine ⟨"://", by simp, "doubleslash", by simp [handoffSchemes], ?_⟩
      rw [stripLower_append _ _ hscheme]
      rfl
    · have hscheme : front.map Char.toLower = ("d" ++ "://").toList := hfront
      refine ⟨"://", by simp, "d", by simp [handoffSchemes], ?_⟩
      rw [stripLower_append _ _ hscheme]
      rfl

theorem opensLink_append {cs : List Char} (h : opensLink cs = true) (rest : List Char) :
    opensLink (cs ++ rest) = true := by
  obtain ⟨needle, hneedle, tail, htail⟩ := opensLink_iff.mp h
  obtain ⟨front, rfl, hfront⟩ := stripLower_eq_some_iff.mp htail
  rw [List.append_assoc]
  exact opensLink_iff.mpr ⟨needle, hneedle, tail ++ rest, stripLower_append front _ hfront⟩

/-- No text before a link ends in an invite that lacks its payload. -/
def NoBareStem (front : List Char) : Prop :=
  ∀ before stem action, front = before ++ stem → glued before = false → ¬ InviteStem action stem

theorem isLink_of_append {q link s : List Char} (hlink : Published link) (hs : EndsHere s)
    (hq : q ≠ []) (h : isLink (q ++ (link ++ s)) = true) :
    isLink q = true ∨ ∃ action, InviteStem action q := by
  rw [isLink, Bool.and_eq_true] at h
  obtain ⟨head, hhead, payload, hsplit, -, -⟩ := hlink.split
  have hopens : opensLink q = true := by
    apply opensLink_of_append hhead hq
    rw [← List.append_assoc head payload s, ← hsplit]
    exact h.1
  rw [isLink, hopens, Bool.true_and]
  by_cases hcand : candidate q = q
  · rw [candidate_append_link hcand hlink.solid hs] at h
    rw [hcand]
    exact accepted_of_append hlink hopens h.2
  · rw [candidate_append_of_end hcand] at h
    exact .inl h.2

theorem firstLink_published {p link s : List Char} (hlink : Published link)
    (hopens : opensLink link = true)
    (haccepted : (normalizeAppUrl (String.ofList link)).isSome = true) (hp : glued p = false) (hbare : NoBareStem p)
    (hs : EndsHere s) (hearlier : firstLink false p = none) :
    firstLink false (p ++ (link ++ s)) = some (String.ofList link) := by
  have hrest : ∀ front q, p = front ++ q → firstLink (glued front) q = none →
      firstLink (glued front) (q ++ (link ++ s)) = some (String.ofList link) := by
    intro front q
    induction q generalizing front with
    | nil =>
      intro hfront _
      rw [List.append_nil] at hfront
      subst hfront
      have hwhole := @candidate_append_link [] link s rfl hlink.solid hs
      rw [List.nil_append, List.nil_append] at hwhole
      have hlinked : isLink (link ++ s) = true := by
        rw [isLink, opensLink_append hopens, hwhole, haccepted]
        rfl
      rw [hp, List.nil_append]
      cases hcons : link ++ s with
      | nil =>
        rw [hcons] at hlinked
        cases hlinked
      | cons c cs =>
        rw [hcons] at hlinked hwhole
        rw [firstLink, if_pos ⟨rfl, hlinked⟩, hwhole]
    | cons c q ih =>
      intro hfront hnone
      rw [firstLink] at hnone
      split at hnone
      · cases hnone
      · next hno =>
        have hno' : ¬ (glued front = false ∧ isLink (c :: (q ++ (link ++ s))) = true) := by
          rintro ⟨hword, hsome⟩
          rcases isLink_of_append hlink hs (List.cons_ne_nil c q) hsome with hq | ⟨action, hstem⟩
          · exact hno ⟨hword, hq⟩
          · exact hbare front (c :: q) action hfront hword hstem
        have hnext := ih (front ++ [c]) (by simp [hfront])
        rw [glued_concat] at hnext
        rw [List.cons_append, firstLink, if_neg hno']
        exact hnext hnone
  exact hrest [] p rfl hearlier

/-! ## Published links -/

section Minted

variable {action payload : String}

theorem toList_mintInviteHttps (haction : action ∈ ["invite", "room"]) :
    ∃ head ∈ linkHeads, (mintInviteHttps action payload).toList = head ++ payload.toList ∧
      InviteStem action head := by
  have hstems : InviteStem "invite" "https://doubleslash.space/i#".toList ∧
      InviteStem "room" "https://doubleslash.space/r#".toList := by
    decide +kernel
  rcases List.mem_pair.mp haction with rfl | rfl
  · refine ⟨"https://doubleslash.space/i#".toList, by simp [linkHeads], ?_, hstems.1⟩
    rw [mintInviteHttps, String.toList_append]
    rfl
  · refine ⟨"https://doubleslash.space/r#".toList, by simp [linkHeads], ?_, hstems.2⟩
    rw [mintInviteHttps, String.toList_append]
    rfl

theorem toList_mintHandoffUri (haction : action ∈ ["invite", "room"]) :
    ∃ head ∈ linkHeads, (mintHandoffUri (action ++ "#" ++ payload)).toList =
      head ++ payload.toList := by
  have htext : mintHandoffUri (action ++ "#" ++ payload) =
      "doubleslash://" ++ (action ++ "#") ++ payload :=
    (String.append_assoc ..).symm
  refine ⟨("doubleslash://" ++ (action ++ "#")).toList, ?_, by rw [htext, String.toList_append]⟩
  rw [linkHeads, List.mem_map]
  rcases List.mem_pair.mp haction with rfl | rfl
  · exact ⟨"doubleslash://invite#", by simp, rfl⟩
  · exact ⟨"doubleslash://room#", by simp, rfl⟩

theorem normalizeAppUrl_mintInviteHttps (haction : action ∈ ["invite", "room"])
    (hne : payload ≠ "") :
    normalizeAppUrl (mintInviteHttps action payload) = some (action ++ "#" ++ payload) := by
  obtain ⟨head, -, htext, hstem⟩ := @toList_mintInviteHttps action payload haction
  have hlist : payload.toList ≠ [] := fun h => hne (String.toList_eq_nil_iff.mp h)
  rw [normalizeAppUrl, htext, stripHttpsInvite_of_stem hstem hlist]
  show some (action ++ "#" ++ String.ofList payload.toList) = _
  rw [String.ofList_toList]

theorem normalizeAppUrl_mintHandoffUri (rest : String) :
    normalizeAppUrl (mintHandoffUri rest) = some rest := by
  have htext : (mintHandoffUri rest).toList = "doubleslash://".toList ++ rest.toList :=
    String.toList_append
  have hlower : "doubleslash://".toList.map Char.toLower = "doubleslash://".toList := by
    decide +kernel
  have hinvite : stripHttpsInvite ("doubleslash://".toList ++ rest.toList) = none := by
    rw [stripHttpsInvite, stripLower_of_clash hlower (by decide) (by decide),
      stripLower_of_clash hlower (by decide) (by decide)]
    rfl
  have hscheme : stripLower ("doubleslash" ++ "://") ("doubleslash://".toList ++ rest.toList) =
      some rest.toList :=
    stripLower_append _ _ hlower
  rw [normalizeAppUrl, htext, hinvite]
  simp only [stripSchemeIn, handoffSchemes, List.findSome?_cons, hscheme]
  rw [Option.map_some, String.ofList_toList]

end Minted

theorem solid_of_alphabet {payload : String} (h : ∀ c ∈ payload.toList, c ∈ b64UrlAlphabet) :
    Solid payload.toList := by
  have hall : ∀ c ∈ b64UrlAlphabet, endsLink c = false ∧ c ≠ '#' := by
    rw [b64UrlAlphabet_eq]
    exact forall_of_all (by decide +kernel)
  exact fun c hc => hall c (h c hc)

/-- No slice panics whatever the text, and a pasted link is found and reduced
to its action and payload: no link and no bare stem comes before it, no letter
or digit right before it, and the end of a link behind it. -/
theorem pasted_link_found {action payload p s : String} (haction : action ∈ ["invite", "room"])
    (hne : payload ≠ "") (hpayload : ∀ c ∈ payload.toList, c ∈ b64UrlAlphabet)
    (hp : glued p.toList = false) (hearlier : findAppUrl? p = some none)
    (hbare : NoBareStem p.toList) (hs : EndsHere s.toList) :
    (∀ link ∈ [mintInviteHttps action payload, mintHandoffUri (action ++ "#" ++ payload)],
      findAppUrl? (p ++ link ++ s) = some (some link) ∧
        normalizeAppUrl? link.toList = some (some (action ++ "#" ++ payload))) ∧
      ∀ text : String, (∃ found, findAppUrl? text = some found) ∧
        ∃ rest, normalizeAppUrl? text.toList = some rest := by
  have hsolid := solid_of_alphabet hpayload
  have hlist : payload.toList ≠ [] := fun h => hne (String.toList_eq_nil_iff.mp h)
  have hnone : firstLink false p.toList = none := by
    rw [findAppUrl?_eq] at hearlier
    exact Option.some.inj hearlier
  have hfound : ∀ link : String, Published link.toList → opensLink link.toList = true →
      normalizeAppUrl link = some (action ++ "#" ++ payload) →
      findAppUrl? (p ++ link ++ s) = some (some link) ∧
        normalizeAppUrl? link.toList = some (some (action ++ "#" ++ payload)) := by
    intro link hlink hopens hnormal
    have haccepted : (normalizeAppUrl (String.ofList link.toList)).isSome = true := by
      rw [String.ofList_toList, hnormal]
      rfl
    have hfirst := firstLink_published hlink hopens haccepted hp hbare hs hnone
    rw [String.ofList_toList] at hfirst
    rw [findAppUrl?_eq, normalizeAppUrl?_eq, hnormal, String.toList_append, String.toList_append,
      List.append_assoc, hfirst]
    exact ⟨rfl, rfl⟩
  refine ⟨?_, fun text => ⟨⟨_, findAppUrl?_eq text⟩, _, normalizeAppUrl?_eq text⟩⟩
  intro link hlink
  rcases List.mem_pair.mp hlink with rfl | rfl
  · obtain ⟨head, hhead, htext, -⟩ := @toList_mintInviteHttps action payload haction
    apply hfound
    · exact ⟨head, hhead, payload.toList, htext, hlist, hsolid⟩
    · rw [htext]
      exact opensLink_append (headSpec hhead).opens _
    · exact normalizeAppUrl_mintInviteHttps haction hne
  · obtain ⟨head, hhead, htext⟩ := @toList_mintHandoffUri action payload haction
    apply hfound
    · exact ⟨head, hhead, payload.toList, htext, hlist, hsolid⟩
    · rw [htext]
      exact opensLink_append (headSpec hhead).opens _
    · exact normalizeAppUrl_mintHandoffUri _

theorem noBareStem_of_getLast {front : List Char} (h : front.getLast? ≠ some '#') :
    NoBareStem front := by
  intro before stem action hsplit _ hstem
  obtain ⟨front', rfl⟩ := endsHash_of_inviteStem hstem
  apply h
  rw [hsplit, ← List.append_assoc, List.getLast?_concat]

/-- A link after a word and a blank, with a blank and a word behind it. -/
theorem pasted_link_found_in_sentence :
    findAppUrl? ("Join: " ++ mintInviteHttps "room" "Ab-9_" ++ " now") =
      some (some (mintInviteHttps "room" "Ab-9_")) :=
  ((pasted_link_found (by simp) (by decide)
    (by
      rw [b64UrlAlphabet_eq]
      exact forall_of_all (by decide))
    (by decide) (by decide +kernel) (noBareStem_of_getLast (by decide))
    (by
      intro c hc
      have hblank : " now".toList.head? = some ' ' := by decide
      rw [hblank] at hc
      obtain rfl : ' ' = c := Option.some.inj hc
      decide)).1 _ List.mem_cons_self).1

/-- Behind an invite without its payload a link becomes the payload: the text
before it has no link, and the link that is found is another one. -/
theorem link_behind_bare_stem :
    glued "https://doubleslash.space/i#".toList = false ∧
      findAppUrl? "https://doubleslash.space/i#" = some none ∧
      findAppUrl? ("https://doubleslash.space/i#" ++ mintInviteHttps "invite" "abc") =
        some (some ("https://doubleslash.space/i#" ++ mintInviteHttps "invite" "abc")) := by
  rw [findAppUrl?_eq, findAppUrl?_eq]
  decide +kernel

end ConquerD.Wire.AppUrl
