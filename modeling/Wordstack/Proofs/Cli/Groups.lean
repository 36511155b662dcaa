import Mathlib.Data.List.Basic
import Mathlib.Data.List.Induction
import Mathlib.Tactic.Common
import Wordstack.Cli.Arguments

/-!
# Groups of arguments

A command line as groups, each of them about one subject: a switch, a setting with its value, or the
file.

- **Groups** (`Arguments.Group`): with the spelling that stands on the line, and any value.
- **Parts** (`Arguments.part`): what arguments say about a subject, to be compared with what the
  groups say (`Group.meaning`).
- **One group** (`Arguments.part_take`, `Arguments.mode_take`,
  `Arguments.errors_take_eq_nil_iff`): it settles its own subject and leaves the others as they are.
- **All groups** (`Says.of_foldl`): every group that can be used is taken, whatever the order.
- **Order** (`option_order_is_irrelevant`).
-/

namespace Wordstack

namespace Arguments

/-! ## Groups -/

/-- The flags that stand alone. -/
inductive Switch where
  | help
  | version
  | verbose
deriving DecidableEq

/-- The flags that a value follows. -/
inductive Setting where
  | code
  | port
  | host
  | configFile
  | modulesFile
  | zone
  | level
deriving DecidableEq

/-- What a group is about. -/
inductive Subject where
  | switch (s : Switch)
  | setting (s : Setting)
  | file
deriving DecidableEq

/-- The ways to write a switch. -/
def Switch.spellings : Switch → List String
  | help => ["--help", "-h"]
  | version => ["--version", "-v"]
  | verbose => ["--verbose"]

/-- The ways to write a setting. -/
def Setting.spellings : Setting → List String
  | code => ["--eval", "-e"]
  | port => ["--port", "-p"]
  | host => ["--host"]
  | configFile => ["--config", "-c"]
  | modulesFile => ["--modules-config"]
  | zone => ["--timezone"]
  | level => ["--log-level"]

/-- Arguments that belong together. A value may be any text; a file is no flag and not the command to
serve. -/
inductive Group where
  | switch (s : Switch) (flag : String) (spelled : flag ∈ s.spellings)
  | setting (s : Setting) (flag : String) (spelled : flag ∈ s.spellings) (value : String)
  | file (name : String) (no_flag : Text.startsWith name "-" = false) (no_command : name ≠ "serve")

namespace Group

def subject : Group → Subject
  | switch s _ _ => .switch s
  | setting s _ _ _ => .setting s
  | file _ _ _ => .file

/-- The arguments of a group. -/
def words : Group → List String
  | switch _ flag _ => [flag]
  | setting _ flag _ value => [flag, value]
  | file name _ _ => [name]

end Group

/-! ## Parts -/

/-- What is said about a subject. -/
inductive Said where
  | yes
  | text (s : String)
  | number (x : Binary64)
  | level (l : LogLevel)

/-- What arguments say about a subject. -/
def part (a : Arguments) : Subject → Option Said
  | .switch .help => if a.help then some .yes else none
  | .switch .version => if a.version then some .yes else none
  | .switch .verbose => if a.verbose then some .yes else none
  | .setting .code => a.code.map .text
  | .setting .port => a.port.map .number
  | .setting .host => a.host.map .text
  | .setting .configFile => a.configFile.map .text
  | .setting .modulesFile => a.modulesFile.map .text
  | .setting .zone => a.zone.map .text
  | .setting .level => a.level.map .level
  | .file => a.file.map .text

/-- What a value means for its setting, none if it cannot be used. -/
def Setting.meaning (s : Setting) (value : String) : Option Said :=
  match s with
  | port =>
    let x := Binary64.ofText value
    if Config.isPort x then some (.number x) else none
  | level => (LogLevel.ofName? value).map .level
  | _ => some (.text value)

/-- What a group means for its subject, none if it cannot be used. -/
def Group.meaning : Group → Option Said
  | switch _ _ _ => some .yes
  | setting s _ _ value => s.meaning value
  | file name _ _ => some (.text name)

/-- Whether something is run because of a subject. -/
def Subject.runs : Subject → Bool
  | .setting .code | .file => true
  | _ => false

/-- Sets what a switch stands for. -/
def turnOn (a : Arguments) : Switch → Arguments
  | .help => { a with help := true }
  | .version => { a with version := true }
  | .verbose => { a with verbose := true }

/-- Sets what a setting stands for. -/
def assign (a : Arguments) (s : Setting) (value : String) : Arguments :=
  match s with
  | .code => { a with code := some value, mode := some .once }
  | .port => a.setPort value
  | .host => { a with host := some value }
  | .configFile => { a with configFile := some value }
  | .modulesFile => { a with modulesFile := some value }
  | .zone => { a with zone := some value }
  | .level => a.setLevel value

/-- Takes a group. -/
def take (a : Arguments) : Group → Arguments
  | .switch _ flag _ => a.setPlain flag
  | .setting _ flag _ value => a.setValue flag (some value)
  | .file name _ _ => a.setPlain name

section

variable {a b : Arguments} {g : Group} {gs hs : List Group} {s : Subject}

/-- Arguments are determined by their parts. -/
theorem eq_of_part_eq (hpart : ∀ s, a.part s = b.part s) (hmode : a.mode = b.mode)
    (herrors : a.errors = b.errors) : a = b := by
  have hflag : ∀ {x y : Bool},
      (if x then some Said.yes else none) = (if y then some Said.yes else none) → x = y := by
    intro x y h
    cases x <;> cases y <;> simp at h ⊢
  have htext : ∀ {x y : Option String}, x.map Said.text = y.map Said.text → x = y :=
    fun h => Option.map_injective (fun _ _ => Said.text.inj) h
  have hport : a.port = b.port :=
    Option.map_injective (fun _ _ => Said.number.inj) (hpart (.setting .port))
  have hlevel : a.level = b.level :=
    Option.map_injective (fun _ _ => Said.level.inj) (hpart (.setting .level))
  have hhelp := hflag (hpart (.switch .help))
  have hversion := hflag (hpart (.switch .version))
  have hverbose := hflag (hpart (.switch .verbose))
  have hcode := htext (hpart (.setting .code))
  have hhost := htext (hpart (.setting .host))
  have hconfig := htext (hpart (.setting .configFile))
  have hmodules := htext (hpart (.setting .modulesFile))
  have hzone := htext (hpart (.setting .zone))
  have hfile := htext (hpart .file)
  cases a
  cases b
  simp_all

/-! ## One group -/

theorem setPlain_switch (w : Switch) {flag : String} (h : flag ∈ w.spellings) :
    a.setPlain flag = a.turnOn w := by
  cases w with
  | help =>
    obtain rfl | rfl := List.mem_pair.mp h
    · rfl
    · rfl
  | version =>
    obtain rfl | rfl := List.mem_pair.mp h
    · rfl
    · rfl
  | verbose =>
    obtain rfl := List.mem_singleton.mp h
    rfl

theorem setValue_setting (w : Setting) {flag : String} (h : flag ∈ w.spellings) (value : String) :
    a.setValue flag (some value) = a.assign w value := by
  cases w with
  | code | port | configFile =>
    obtain rfl | rfl := List.mem_pair.mp h
    · rfl
    · rfl
  | _ =>
    obtain rfl := List.mem_singleton.mp h
    rfl

/-- A file is only taken if there is none. -/
theorem setPlain_file {name : String} (hflag : Text.startsWith name "-" = false)
    (hserve : name ≠ "serve") :
    a.setPlain name = if isGiven a.file then a else
      { a with file := some name, mode := if a.mode = some .serve then a.mode else some .once } := by
  have hne : ∀ flag, Text.startsWith flag "-" = true → (name == flag) = false := by
    rintro flag hdash
    rw [beq_eq_false_iff_ne]
    rintro rfl
    rw [hdash] at hflag
    cases hflag
  unfold setPlain
  simp [hne "--help" rfl, hne "-h" rfl, hne "--version" rfl, hne "-v" rfl, hne "--verbose" rfl,
    hserve, hflag]

/-- A port is taken, or an error. -/
theorem setPort_cases (a : Arguments) (value : String) :
    (∃ x, Setting.port.meaning value = some (.number x) ∧
        a.setPort value = { a with port := some x }) ∨
      (Setting.port.meaning value = none ∧
        a.setPort value = a.refuse ("Invalid port: " ++ value)) := by
  unfold setPort Setting.meaning
  cases h : Config.isPort (Binary64.ofText value) with
  | true => exact .inl ⟨Binary64.ofText value, by simp [h], by simp [h]⟩
  | false => exact .inr ⟨by simp [h], by simp [h]⟩

/-- A log level is taken, or an error. -/
theorem setLevel_cases (a : Arguments) (value : String) :
    (∃ l, Setting.level.meaning value = some (.level l) ∧
        a.setLevel value = { a with level := some l }) ∨
      (Setting.level.meaning value = none ∧
        a.setLevel value = a.refuse ("Invalid log level: " ++ value)) := by
  unfold setLevel Setting.meaning
  cases LogLevel.ofName? value with
  | some l => exact .inl ⟨l, rfl, rfl⟩
  | none => exact .inr ⟨rfl, rfl⟩

/-- A group that can be used settles its own subject and leaves the others as they are, but for a
second file. -/
theorem part_take (hfile : g.subject = .file → a.file = none) (hmeans : g.meaning.isSome = true)
    (s : Subject) : (a.take g).part s = if s = g.subject then g.meaning else a.part s := by
  cases g with
  | switch w flag spelled =>
    rw [take, setPlain_switch w spelled]
    cases w <;> rcases s with (_ | _ | _) | (_ | _ | _ | _ | _ | _ | _) | _ <;> rfl
  | setting w flag spelled value =>
    rw [take, setValue_setting w spelled]
    rw [Group.meaning] at hmeans ⊢
    cases w with
    | port =>
      obtain ⟨x, hx, hset⟩ | ⟨hnone, -⟩ := a.setPort_cases value
      · rw [assign, hset, hx]
        rcases s with (_ | _ | _) | (_ | _ | _ | _ | _ | _ | _) | _ <;> rfl
      · rw [hnone] at hmeans
        cases hmeans
    | level =>
      obtain ⟨l, hl, hset⟩ | ⟨hnone, -⟩ := a.setLevel_cases value
      · rw [assign, hset, hl]
        rcases s with (_ | _ | _) | (_ | _ | _ | _ | _ | _ | _) | _ <;> rfl
      · rw [hnone] at hmeans
        cases hmeans
    | _ => rcases s with (_ | _ | _) | (_ | _ | _ | _ | _ | _ | _) | _ <;> rfl
  | file name no_flag no_command =>
    rw [take, setPlain_file no_flag no_command, hfile rfl]
    rcases s with (_ | _ | _) | (_ | _ | _ | _ | _ | _ | _) | _ <;> rfl

theorem mode_take (hmode : a.mode ≠ some .serve) (hfile : g.subject = .file → a.file = none) :
    (a.take g).mode = if g.subject.runs then some .once else a.mode := by
  cases g with
  | switch w flag spelled =>
    rw [take, setPlain_switch w spelled]
    cases w <;> rfl
  | setting w flag spelled value =>
    rw [take, setValue_setting w spelled]
    cases w with
    | port =>
      rw [assign]
      obtain ⟨_, _, hset⟩ | ⟨_, hset⟩ := a.setPort_cases value <;> rw [hset] <;> rfl
    | level =>
      rw [assign]
      obtain ⟨_, _, hset⟩ | ⟨_, hset⟩ := a.setLevel_cases value <;> rw [hset] <;> rfl
    | _ => rfl
  | file name no_flag no_command =>
    rw [take, setPlain_file no_flag no_command, hfile rfl]
    simp [isGiven, hmode, Group.subject, Subject.runs]

/-- A group that cannot be used is an error. -/
theorem errors_take_eq_nil_iff :
    (a.take g).errors = [] ↔ a.errors = [] ∧ g.meaning.isSome = true := by
  cases g with
  | switch w flag spelled =>
    rw [take, setPlain_switch w spelled]
    cases w <;> simp [Group.meaning, turnOn]
  | setting w flag spelled value =>
    rw [take, setValue_setting w spelled, Group.meaning]
    cases w with
    | port =>
      obtain ⟨x, hx, hset⟩ | ⟨hnone, hset⟩ := a.setPort_cases value
      · simp [assign, hset, hx]
      · simp [assign, hset, hnone, refuse]
    | level =>
      obtain ⟨l, hl, hset⟩ | ⟨hnone, hset⟩ := a.setLevel_cases value
      · simp [assign, hset, hl]
      · simp [assign, hset, hnone, refuse]
    | _ => simp [assign, Setting.meaning]
  | file name no_flag no_command =>
    rw [take, setPlain_file no_flag no_command]
    split <;> simp [Group.meaning]

/-! ## All groups -/

/-- The arguments of groups in order. -/
def wordsOf (gs : List Group) : List String := gs.flatMap Group.words

/-- Arguments say what the groups say, and nothing else. -/
structure Says (a : Arguments) (gs : List Group) : Prop where
  part_eq : ∀ g ∈ gs, a.part g.subject = g.meaning
  part_eq_none : ∀ s, s ∉ gs.map Group.subject → a.part s = none
  errors_eq : a.errors = []
  mode_eq : a.mode = if gs.any (·.subject.runs) then some .once else none

theorem startsWith_of_mem_valueFlags {flag : String} (h : flag ∈ valueFlags) :
    Text.startsWith flag "-" = true :=
  (by decide : ∀ flag ∈ valueFlags, Text.startsWith flag "-" = true) flag h

theorem Setting.mem_valueFlags (w : Setting) {flag : String} (h : flag ∈ w.spellings) :
    flag ∈ valueFlags := by
  have hall : ∀ w : Setting, ∀ flag ∈ w.spellings, flag ∈ valueFlags := by
    intro w
    cases w <;> decide
  exact hall w flag h

theorem Switch.not_mem_valueFlags (w : Switch) {flag : String} (h : flag ∈ w.spellings) :
    flag ∉ valueFlags := by
  have hall : ∀ w : Switch, ∀ flag ∈ w.spellings, flag ∉ valueFlags := by
    intro w
    cases w <;> decide
  exact hall w flag h

/-- An argument that no value follows is taken by itself. -/
theorem readFrom_plain (a : Arguments) {word : String} (h : word ∉ valueFlags) (more : List String) :
    readFrom a (word :: more) = readFrom (a.setPlain word) more := by
  have hplain : valueFlags.contains word = false := by simpa using h
  cases more with
  | nil =>
    show (if valueFlags.contains word then _ else a.setPlain word) = a.setPlain word
    rw [hplain, if_neg Bool.false_ne_true]
  | cons next more => rw [readFrom, hplain, if_neg Bool.false_ne_true]

theorem readFrom_words (a : Arguments) (g : Group) (more : List String) :
    readFrom a (g.words ++ more) = readFrom (a.take g) more := by
  cases g with
  | switch w flag spelled => exact readFrom_plain a (w.not_mem_valueFlags spelled) more
  | setting w flag spelled value =>
    have hvalue : valueFlags.contains flag = true := by simpa using w.mem_valueFlags spelled
    show readFrom a (flag :: value :: more) = _
    rw [readFrom, if_pos hvalue]
    rfl
  | file name no_flag no_command =>
    refine readFrom_plain a (fun h => ?_) more
    rw [startsWith_of_mem_valueFlags h] at no_flag
    cases no_flag

theorem readFrom_wordsOf (a : Arguments) (gs : List Group) :
    readFrom a (wordsOf gs) = gs.foldl take a := by
  induction gs generalizing a with
  | nil => rfl
  | cons g gs ih =>
    rw [wordsOf, List.flatMap_cons, readFrom_words]
    exact ih (a.take g)

theorem errors_foldl_take_eq_nil_iff :
    (gs.foldl take a).errors = [] ↔ a.errors = [] ∧ ∀ g ∈ gs, g.meaning.isSome = true := by
  induction gs generalizing a with
  | nil => simp
  | cons g gs ih => rw [List.foldl_cons, ih, errors_take_eq_nil_iff, List.forall_mem_cons, and_assoc]

/-- What one more group about a new subject adds. -/
theorem Says.take (h : Says a gs) (hnew : g.subject ∉ gs.map Group.subject)
    (hmeans : g.meaning.isSome = true) : Says (a.take g) (gs ++ [g]) := by
  have hfile : g.subject = .file → a.file = none := by
    intro hg
    have hnone := h.part_eq_none g.subject hnew
    rw [hg] at hnone
    simpa [part] using hnone
  have hpart := part_take hfile hmeans
  refine ⟨?_, ?_, errors_take_eq_nil_iff.mpr ⟨h.errors_eq, hmeans⟩, ?_⟩
  · intro g' hg'
    rw [hpart]
    obtain hg' | rfl := List.mem_append.mp hg' |>.imp_right List.mem_singleton.mp
    · have hne : g'.subject ≠ g.subject := fun heq => hnew (heq ▸ List.mem_map_of_mem hg')
      rw [if_neg hne, h.part_eq g' hg']
    · rw [if_pos rfl]
  · intro s hs
    rw [List.map_append, List.mem_append, not_or] at hs
    rw [hpart, if_neg (by simpa using hs.2), h.part_eq_none s hs.1]
  · have hmode : a.mode ≠ some .serve := by
      rw [h.mode_eq]
      split <;> simp
    rw [mode_take hmode hfile, h.mode_eq, List.any_append, List.any_cons, List.any_nil]
    cases g.subject.runs <;> cases gs.any (·.subject.runs) <;> rfl

/-- All groups are taken, if they are about different subjects and can be used. -/
theorem Says.of_foldl (hd : (gs.map Group.subject).Nodup)
    (hmeans : ∀ g ∈ gs, g.meaning.isSome = true) : Says (gs.foldl Arguments.take {}) gs := by
  induction gs using List.reverseRecOn with
  | nil =>
    refine ⟨List.forall_mem_nil _, fun s _ => ?_, rfl, rfl⟩
    rcases s with (_ | _ | _) | (_ | _ | _ | _ | _ | _ | _) | _ <;> rfl
  | append_singleton gs g ih =>
    rw [List.map_append, List.map_singleton, List.nodup_append] at hd
    obtain ⟨hgs, hg⟩ := List.forall_mem_append.mp hmeans
    rw [List.foldl_append, List.foldl_cons, List.foldl_nil]
    exact (ih hd.1 hgs).take (fun h => hd.2.2 _ h _ (by simp) rfl) (hg g (by simp))

/-- Arguments that say the same are the same. -/
theorem Says.unique (h : Says a gs) (h' : Says b gs) : a = b := by
  refine eq_of_part_eq (fun s => ?_) (h.mode_eq.trans h'.mode_eq.symm)
    (h.errors_eq.trans h'.errors_eq.symm)
  by_cases hs : s ∈ gs.map Group.subject
  · obtain ⟨g, hg, rfl⟩ := List.mem_map.mp hs
    rw [h.part_eq g hg, h'.part_eq g hg]
  · rw [h.part_eq_none s hs, h'.part_eq_none s hs]

theorem Says.perm (h : Says a gs) (hp : hs.Perm gs) : Says a hs where
  part_eq g hg := h.part_eq g (hp.mem_iff.mp hg)
  part_eq_none s hs := h.part_eq_none s fun hmem => hs ((hp.map Group.subject).mem_iff.mpr hmem)
  errors_eq := h.errors_eq
  mode_eq := by rw [h.mode_eq, hp.any_eq]

end

end Arguments

/-! ## Order -/

open Arguments

/-- Groups about different subjects, which give no error, may stand in any order: the arguments are
the same. Each value goes to its own option, nothing is said about the others, and something is run
once if there is code or a file. -/
theorem option_order_is_irrelevant {gs hs : List Group} (hd : (gs.map Group.subject).Nodup)
    (hok : (read (wordsOf gs)).errors = []) (hp : hs.Perm gs) :
    read (wordsOf hs) = read (wordsOf gs) ∧
      (∀ g ∈ gs, ∃ x, g.meaning = some x ∧ (read (wordsOf gs)).part g.subject = some x) ∧
      (∀ s, s ∉ gs.map Group.subject → (read (wordsOf gs)).part s = none) ∧
      (read (wordsOf gs)).mode = some (if gs.any (·.subject.runs) then .once else .session) := by
  have hread : ∀ gs, read (wordsOf gs) = { gs.foldl take {} with
      mode := (gs.foldl take {}).mode.or (some .session) } := fun gs => by
    unfold Arguments.read
    rw [readFrom_wordsOf]
  have hmeans : ∀ g ∈ gs, g.meaning.isSome = true := by
    rw [hread] at hok
    exact (errors_foldl_take_eq_nil_iff.mp hok).2
  have hgs := Says.of_foldl hd hmeans
  have hhs : Says (hs.foldl take {}) hs :=
    Says.of_foldl ((hp.map _).nodup_iff.mpr hd) fun g hg => hmeans g (hp.mem_iff.mp hg)
  have hpart : ∀ s, (read (wordsOf gs)).part s = (gs.foldl take {}).part s := by
    intro s
    rw [hread]
    rcases s with (_ | _ | _) | (_ | _ | _ | _ | _ | _ | _) | _ <;> rfl
  refine ⟨?_, fun g hg => ?_, fun s hs => ?_, ?_⟩
  · rw [hread, hread, hhs.unique (hgs.perm hp)]
  · obtain ⟨x, hx⟩ := Option.isSome_iff_exists.mp (hmeans g hg)
    exact ⟨x, hx, by rw [hpart, hgs.part_eq g hg, hx]⟩
  · rw [hpart, hgs.part_eq_none s hs]
  · rw [hread]
    show (gs.foldl take {}).mode.or (some .session) = _
    rw [hgs.mode_eq]
    cases gs.any (·.subject.runs) <;> rfl

/-- Values that look like a flag, like the command to serve and like a file. -/
def Arguments.sampleGroups : List Group :=
  [.setting .host "--host" (by decide) "--port", .setting .port "-p" (by decide) "0x50",
    .setting .code "-e" (by decide) "serve", .switch .help "-h" (by decide),
    .setting .zone "--timezone" (by decide) "a.forthic", .file "" (by decide) (by decide)]

theorem option_order_is_irrelevant_lookalikes :
    (sampleGroups.map Group.subject).Nodup ∧ (read (wordsOf sampleGroups)).errors = [] ∧
      sampleGroups.reverse.Perm sampleGroups ∧
      read ["", "--timezone", "a.forthic", "-h", "-e", "serve", "-p", "0x50", "--host", "--port"] =
        read ["--host", "--port", "-p", "0x50", "-e", "serve", "-h", "--timezone", "a.forthic", ""] := by
  have hd : (sampleGroups.map Group.subject).Nodup := by decide
  have hok : (read (wordsOf sampleGroups)).errors = [] := by decide +kernel
  have hp := List.reverse_perm sampleGroups
  exact ⟨hd, hok, hp, (option_order_is_irrelevant hd hok hp).1⟩

end Wordstack
