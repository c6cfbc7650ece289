import ConquerD.Manager.Inventory

/-!
# Manager: commands for the remote shell

A command goes to the remote host as one line of text. `ShellReader` reads a line of plain
words the way a POSIX shell does: blanks part the words, single quotes keep everything
between them, double quotes everything but what is expanded there. A line in which the
shell would find more than words (an operator, an expansion, a pattern, a comment) is
refused. Every command built from escaped values reads as its words and those values.
-/

namespace ConquerD.Manager

/-! ## Reading words -/

inductive Quoting where
  | none
  | single
  | double
  deriving DecidableEq

/-- What a shell does not take as itself outside of quotes, blanks and quotes aside. -/
def isShellSpecial (c : Char) : Bool :=
  "|&;<>()$`\\*?[]#~=%{}!^\n".toList.contains c

/-- What is expanded between double quotes. -/
def isExpanded (c : Char) : Bool :=
  "$`\\!".toList.contains c

/-- The words so far, the one being read when there is one, and the open quote. -/
structure ShellReader where
  words : List (List Char)
  word : Option (List Char)
  quoting : Quoting

namespace ShellReader

def start : ShellReader where
  words := []
  word := none
  quoting := .none

variable (r : ShellReader)

/-- The character belongs to the word. -/
def take (c : Char) : ShellReader :=
  { r with word := some (r.word.getD [] ++ [c]) }

def quote (quoting : Quoting) : ShellReader :=
  { r with word := some (r.word.getD []), quoting := quoting }

def endWord : ShellReader :=
  { r with words := r.words ++ r.word.toList, word := none }

def next (c : Char) : Option ShellReader :=
  match r.quoting with
  | .none =>
    if c = ' ' ∨ c = '\t' then some r.endWord
    else if c = '\'' then some (r.quote .single)
    else if c = '"' then some (r.quote .double)
    else if isShellSpecial c then none
    else some (r.take c)
  | .single => some (if c = '\'' then r.quote .none else r.take c)
  | .double =>
    if c = '"' then some (r.quote .none) else if isExpanded c then none else some (r.take c)

def read (cs : List Char) : Option ShellReader :=
  cs.foldlM next r

/-- No quote may be left open. -/
def finish : Option (List (List Char)) :=
  if r.quoting = .none then some r.endWord.words else none

end ShellReader

/-- The words of a line, if it has words only. -/
def shellWords (line : List Char) : Option (List (List Char)) :=
  (ShellReader.start.read line).bind ShellReader.finish

/-! ## Escaping -/

/-- What needs no quotes. -/
def isShellPlain (c : Char) : Bool :=
  c.isAlphanum || c = '@' || c = '.' || c = '_' || c = '-' || c = '/'

/-- A single quote closes the quotes, stands between double ones, and opens them again. -/
def escapeChar (c : Char) : List Char :=
  if c = '\'' then ['\'', '"', '\'', '"', '\''] else [c]

def shellEscape (s : List Char) : List Char :=
  if s = [] then ['\'', '\'']
  else if s.all isShellPlain then s
  else '\'' :: s.flatMap escapeChar ++ ['\'']

/-! ## Commands -/

/-- Texts with single blanks between them. -/
def line : List (List Char) → List Char
  | [] => []
  | [text] => text
  | text :: texts => text ++ ' ' :: line texts

/-- The commands that carry values of the inventory. -/
inductive RemoteCommand where
  /-- `promote_binary` of an install. -/
  | promoteBinary (staging remote : List Char)
  | link (remote currentLink : List Char)
  | ensureDirectories (user binaryDir dataDir linkDir : List Char)
  /-- The drop-in of an uninstall, and the data directory of a purge. -/
  | removeTree (path : List Char)
  /-- The script of `upload_text_file`, which a second shell reads. -/
  | uploadText (script : List Char)

/-- The prefix is `sudo` and a blank, or nothing. -/
def privilegePrefix : PrivilegeMode → List (List Char)
  | .sudo => ["sudo".toList]
  | .root => []
  | .rootlessSystemd => []

namespace RemoteCommand

/-- The command with its values as they are, or escaped. -/
def parts (value : List Char → List Char) : RemoteCommand → List (List Char)
  | promoteBinary staging remote => ["mv".toList, "-f".toList, value staging, value remote]
  | link remote currentLink => ["ln".toList, "-sfn".toList, value remote, value currentLink]
  | ensureDirectories user binaryDir dataDir linkDir =>
    ["install".toList, "-d".toList, "-o".toList, value user, "-g".toList, value user,
      "-m".toList, "0755".toList, value binaryDir, value dataDir, value linkDir]
  | removeTree path => ["rm".toList, "-rf".toList, value path]
  | uploadText script => ["bash".toList, "-lc".toList, value script]

def render (mode : PrivilegeMode) (command : RemoteCommand) : List Char :=
  line (privilegePrefix mode ++ command.parts shellEscape)

end RemoteCommand

/-! ## What is read back -/

namespace ShellReader

variable {r : ShellReader}

theorem read_append (r : ShellReader) (cs ds : List Char) :
    r.read (cs ++ ds) = (r.read cs).bind fun r' => r'.read ds :=
  List.foldlM_append ..

theorem read_cons (r : ShellReader) (c : Char) (cs : List Char) :
    r.read (c :: cs) = (r.next c).bind fun r' => r'.read cs := rfl

theorem next_plain (hr : r.quoting = .none) {c : Char} (hc : isShellPlain c = true) :
    r.next c = some (r.take c) := by
  have hne : ∀ d : Char, isShellPlain d = false → c ≠ d := by
    rintro d hd rfl
    rw [hc] at hd
    cases hd
  have hspecial : isShellSpecial c = false := by
    rw [isShellSpecial, List.contains_eq_mem, decide_eq_false_iff_not]
    intro hmem
    exact hne c ((List.all_eq_true.mp (by decide :
      "|&;<>()$`\\*?[]#~=%{}!^\n".toList.all (fun d => !isShellPlain d) = true) c hmem) |>
        (by simpa using ·)) rfl
  rw [next, hr]
  dsimp only
  rw [if_neg (not_or.mpr ⟨hne ' ' (by decide), hne '\t' (by decide)⟩), if_neg (hne '\'' (by decide)),
    if_neg (hne '"' (by decide)), hspecial, if_neg Bool.false_ne_true]

/-- The reader after a text whose characters all belong to the word. -/
def takeAll (r : ShellReader) (cs : List Char) : ShellReader :=
  { r with word := some (r.word.getD [] ++ cs) }

theorem read_plain (hr : r.quoting = .none) {cs : List Char} (hcs : ∀ c ∈ cs, isShellPlain c = true)
    (hne : cs ≠ []) : r.read cs = some (r.takeAll cs) := by
  induction cs generalizing r with
  | nil => exact absurd rfl hne
  | cons c cs ih =>
    rw [read_cons, next_plain hr (hcs c (List.mem_cons_self ..)), Option.bind_some]
    cases cs with
    | nil => rfl
    | cons d ds =>
      rw [ih (r := r.take c) hr (fun e he => hcs e (List.mem_cons_of_mem _ he))
        (List.cons_ne_nil _ _)]
      simp [takeAll, take]

theorem read_escaped (hr : r.quoting = .single) (s : List Char) :
    r.read (s.flatMap escapeChar) = some { r with
      word := if s = [] then r.word else some (r.word.getD [] ++ s) } := by
  induction s generalizing r with
  | nil => rfl
  | cons c s ih =>
    have hchar : r.read (escapeChar c) = some (r.take c) := by
      unfold escapeChar
      split
      · next hquote =>
        subst hquote
        obtain ⟨words, word, quoting⟩ := r
        dsimp only at hr
        subst hr
        rfl
      · next hquote =>
        rw [read_cons, next, hr]
        dsimp only
        rw [if_neg hquote]
        rfl
    rw [List.flatMap_cons, read_append, hchar, Option.bind_some, ih (r := r.take c) hr,
      if_neg (List.cons_ne_nil _ _)]
    cases s with
    | nil => rfl
    | cons d ds => simp [take]

end ShellReader

/-- The text is read as the word, wherever a word may start or go on. -/
def ReadsAs (text word : List Char) : Prop :=
  ∀ r : ShellReader, r.quoting = .none → r.read text = some (r.takeAll word)

theorem ReadsAs.plain {cs : List Char} (hcs : ∀ c ∈ cs, isShellPlain c = true) (hne : cs ≠ []) :
    ReadsAs cs cs :=
  fun _ hr => ShellReader.read_plain hr hcs hne

theorem readsAs_shellEscape (s : List Char) : ReadsAs (shellEscape s) s := by
  unfold shellEscape
  split
  · next hnil =>
    subst hnil
    rintro ⟨words, word, quoting⟩ hr
    dsimp only at hr
    subst hr
    simp [ShellReader.read, ShellReader.next, ShellReader.quote, ShellReader.takeAll]
  · next hne =>
    split
    · next hplain => exact .plain (List.all_eq_true.mp hplain) hne
    · rintro ⟨words, word, quoting⟩ hr
      dsimp only at hr
      subst hr
      have hopen : (ShellReader.mk words word .none).next '\'' =
          some ⟨words, some (word.getD []), .single⟩ := rfl
      rw [List.cons_append, ShellReader.read_cons, hopen, Option.bind_some, ShellReader.read_append,
        ShellReader.read_escaped rfl, if_neg hne, Option.bind_some]
      rfl

theorem ReadsAs.literal {s : String}
    (h : (s.toList.all isShellPlain && !s.toList.isEmpty) = true) : ReadsAs s.toList s.toList := by
  rw [Bool.and_eq_true, Bool.not_eq_true', List.isEmpty_eq_false_iff] at h
  exact .plain (List.all_eq_true.mp h.1) h.2

theorem read_line {texts words : List (List Char)} (h : List.Forall₂ ReadsAs texts words)
    (done : List (List Char)) :
    ((ShellReader.mk done none .none).read (line texts)).bind ShellReader.finish =
      some (done ++ words) := by
  induction h generalizing done with
  | nil => simp [line, ShellReader.read, ShellReader.finish, ShellReader.endWord]
  | @cons text word texts words htext hrest ih =>
    have hone := htext (ShellReader.mk done none .none) rfl
    cases hrest with
    | nil =>
      rw [line, hone]
      rfl
    | @cons text' word' texts' words' htext' hrest' =>
      have hblank : ((ShellReader.mk done none .none).takeAll word).next ' ' =
          some ⟨done ++ [word], none, .none⟩ := rfl
      rw [line, ShellReader.read_append, hone, Option.bind_some, ShellReader.read_cons, hblank,
        Option.bind_some, ih, List.append_assoc, List.singleton_append]
      exact List.cons_ne_nil _ _

theorem RemoteCommand.readsAs_parts (command : RemoteCommand) :
    List.Forall₂ ReadsAs (command.parts shellEscape) (command.parts id) := by
  have hvalue := readsAs_shellEscape
  cases command with
  | promoteBinary staging remote =>
    exact .cons (.literal (by decide)) (.cons (.literal (by decide))
      (.cons (hvalue _) (.cons (hvalue _) .nil)))
  | link remote currentLink =>
    exact .cons (.literal (by decide)) (.cons (.literal (by decide))
      (.cons (hvalue _) (.cons (hvalue _) .nil)))
  | ensureDirectories user binaryDir dataDir linkDir =>
    exact .cons (.literal (by decide)) (.cons (.literal (by decide)) (.cons (.literal (by decide))
      (.cons (hvalue _) (.cons (.literal (by decide)) (.cons (hvalue _)
        (.cons (.literal (by decide)) (.cons (.literal (by decide)) (.cons (hvalue _)
          (.cons (hvalue _) (.cons (hvalue _) .nil))))))))))
  | removeTree path =>
    exact .cons (.literal (by decide)) (.cons (.literal (by decide)) (.cons (hvalue _) .nil))
  | uploadText script =>
    exact .cons (.literal (by decide)) (.cons (.literal (by decide)) (.cons (hvalue _) .nil))

/-- Whatever the values are, the shell reads a command as its own words and the values, each
of them one word: no value parts a word, is expanded or starts another command. -/
theorem RemoteCommand.render_reads_literally (mode : PrivilegeMode) (command : RemoteCommand) :
    shellWords (command.render mode) = some (privilegePrefix mode ++ command.parts id) := by
  refine read_line (?_ : List.Forall₂ ReadsAs _ _) []
  cases mode
  · exact .cons (.literal (by decide)) command.readsAs_parts
  · exact command.readsAs_parts
  · exact command.readsAs_parts

end ConquerD.Manager
