import Wordstack.Config.Load
import Wordstack.Proofs.Fault.Blame

/-!
# What configuration files give

The objects in files, the entries that are read from them, and the runs that read them.

- **Objects** (`Held`, `IsNumber`, `IsLevel`): the value under the first of the spellings of a key
  that is there, and what it can be used as.
- **Entries** (`Entries.Of`): entries in which every key has the value that it has in an object. The
  readers of entries are the values of the object (`Entries.Of.text?_eq_some_iff`,
  `Entries.Of.number?_eq_some_iff`), and so are the parts (`Entries.Of.sub`).
- **Files** (`Holds`, `UsedFile`, `ModulesOf`): readable files, the one that is used, and the
  modules that another one lists.
- **Runs** (`Holds.run_ofFile`, `UsedFile.run_fileLayers`, `ModulesOf.run_modulesOfFile`).
-/

namespace Wordstack

/-! ## Objects -/

/-- The value in an object under the first of some keys that is there. -/
inductive Held (fields : List (String × Json)) : List String → Json → Prop
  | here {key : String} {keys : List String} {x : Json} (h : fields.lookup key = some x) :
      Held fields (key :: keys) x
  | next {key : String} {keys : List String} {x : Json} (habsent : fields.lookup key = none)
      (h : Held fields keys x) : Held fields (key :: keys) x

/-- A value is a number that is finite, or a text of one. -/
inductive IsNumber : Json → Binary64 → Prop
  | num {x : Binary64} (h : x.isFinite = true) : IsNumber (.num x) x
  | text {s : String} (hs : Text.trim s ≠ "") (h : (Binary64.ofText s).isFinite = true) :
      IsNumber (.str s) (Binary64.ofText s)

/-- A value is the name of a log level, in any case. -/
def IsLevel (x : Json) (l : LogLevel) : Prop :=
  ∃ s, x = .str s ∧ LogLevel.ofName? (Text.lower s) = some l

/-- No entry stands under the key `__proto__`, neither in an object nor in the parts of it that
settings are read from: what such an entry holds would stand in for what is missing. -/
structure Ordinary (fields : List (String × Json)) : Prop where
  own : fields.lookup "__proto__" = none
  part : ∀ key ∈ ["server", "interpreter"], ∀ inner, fields.lookup key = some (.obj inner) →
    inner.lookup "__proto__" = none

theorem held_iff {fields : List (String × Json)} {keys : List String} {x : Json} :
    Held fields keys x ↔ (keys.findSome? fun key => fields.lookup key) = some x := by
  induction keys with
  | nil => exact iff_of_false (fun h => nomatch h) (by simp)
  | cons key keys ih =>
    rw [List.findSome?_cons]
    cases hkey : fields.lookup key with
    | some y =>
      constructor
      · rintro (h | ⟨habsent, -⟩)
        · rw [← hkey, h]
        · rw [hkey] at habsent
          cases habsent
      · intro h
        exact .here (hkey.trans h)
    | none =>
      constructor
      · rintro (h | ⟨-, h⟩)
        · rw [hkey] at h
          cases h
        · exact ih.mp h
      · exact fun h => .next hkey (ih.mpr h)

theorem not_held_nil {keys : List String} {x : Json} : ¬ Held [] keys x := by
  intro h
  induction h with
  | here h => cases h
  | next _ _ ih => exact ih

namespace Entries

variable {d : Entries} {fields : List (String × Json)} {keys : List String} {key : String}

/-- Entries in which every key has the value that it has in an object. -/
def Of (d : Entries) (fields : List (String × Json)) : Prop :=
  ∀ key, key ≠ "__proto__" → (d.own.lookup key).or (d.behind.lookup key) = fields.lookup key

theorem of_ofJson? (h : fields.lookup "__proto__" = none) :
    ∃ d, ofJson? (.obj fields) = some d ∧ d.Of fields := by
  refine ⟨_, rfl, fun key hkey => ?_⟩
  rw [h, lookup_filter (p := fun key => key != "__proto__") (by simpa using hkey)]
  simp

theorem Of.find?_eq_some_iff (h : d.Of fields) (hkeys : "__proto__" ∉ keys) {x : Json} :
    d.find? keys = some x ↔ Held fields keys x := by
  rw [held_iff, find?]
  have hcongr : (keys.findSome? fun key => (d.own.lookup key).or (d.behind.lookup key)) =
      keys.findSome? fun key => fields.lookup key := by
    induction keys with
    | nil => rfl
    | cons key keys ih =>
      rw [List.mem_cons, not_or] at hkeys
      rw [List.findSome?_cons, List.findSome?_cons, h key (Ne.symm hkeys.1), ih hkeys.2]
  rw [hcongr]

theorem Of.text?_eq_some_iff (h : d.Of fields) (hkeys : "__proto__" ∉ keys) {s : String} :
    d.text? keys = some s ↔ Held fields keys (.str s) := by
  rw [← h.find?_eq_some_iff hkeys, text?]
  cases d.find? keys with
  | none => simp
  | some x => cases x <;> simp [Json.str?]

theorem Of.number?_eq_some_iff (h : d.Of fields) (hkeys : "__proto__" ∉ keys) {n : Binary64} :
    d.number? keys = some n ↔ ∃ x, Held fields keys x ∧ IsNumber x n := by
  have hfound : (∃ x, Held fields keys x ∧ IsNumber x n) ↔
      ∃ x, d.find? keys = some x ∧ IsNumber x n := by
    simp only [h.find?_eq_some_iff hkeys]
  rw [hfound, number?]
  cases d.find? keys with
  | none => simp
  | some x =>
    simp only [Option.some.injEq, exists_eq_left']
    cases x with
    | num m =>
      constructor
      · intro hm
        obtain ⟨hfinite, heq⟩ := Option.ite_none_right_eq_some.mp hm
        cases heq
        exact .num hfinite
      · rintro ⟨hfinite⟩
        exact if_pos hfinite
    | str s =>
      constructor
      · intro hs
        obtain ⟨hvalid, heq⟩ := Option.ite_none_right_eq_some.mp hs
        cases heq
        simp only [Bool.and_eq_true, Bool.not_eq_true', String.isEmpty_eq_false_iff] at hvalid
        exact .text hvalid.1 hvalid.2
      · rintro (_ | ⟨hs, hfinite⟩)
        exact if_pos (by simp [hs, hfinite])
    | _ => exact iff_of_false (fun h => nomatch h) (fun h => nomatch h)

/-- The entries of a part are those of the object under its key; there are none without one. -/
theorem Of.sub (h : d.Of fields) (hkey : key ≠ "__proto__")
    (hinner : ∀ inner, fields.lookup key = some (.obj inner) → inner.lookup "__proto__" = none) :
    (∃ inner, fields.lookup key = some (.obj inner) ∧ (d.sub key).Of inner) ∨
      ((∀ inner, fields.lookup key ≠ some (.obj inner)) ∧ (d.sub key).Of []) := by
  have hfind : d.find? [key] = fields.lookup key := by
    simp [find?, h key hkey]
  unfold Entries.sub
  rw [hfind]
  cases hvalue : fields.lookup key with
  | none => exact .inr ⟨by simp, fun _ _ => rfl⟩
  | some x =>
    cases x with
    | obj inner =>
      obtain ⟨e, he, hof⟩ := of_ofJson? (hinner inner hvalue)
      refine .inl ⟨inner, rfl, ?_⟩
      rw [Option.bind_some, he]
      exact hof
    | _ => exact .inr ⟨by simp, fun _ _ => rfl⟩

/-- The modules that a file lists. -/
def listedModules (fields : List (String × Json)) : List ModuleEntry :=
  match fields.lookup "modules" with
  | some (.arr items) => items.map ModuleEntry.ofJson
  | _ => []

theorem Of.modules (h : d.Of fields) :
    (ConfigLayer.ofEntries d).modules.getD [] = listedModules fields := by
  have hfind : d.find? ["modules"] = fields.lookup "modules" := by
    simp [find?, h "modules" (by decide)]
  unfold ConfigLayer.ofEntries listedModules
  dsimp only
  rw [hfind]
  cases fields.lookup "modules" with
  | none => rfl
  | some x => cases x <;> rfl

end Entries

/-! ## Files -/

/-- A file that can be read, with the entries of the object in its text. -/
structure Holds (files : String → FileState) (file : String) (fields : List (String × Json)) :
    Prop where
  no_null : '\x00' ∉ file.toList
  text : ∃ text, files file = .text text ∧
    ConfigLayer.dataOf (Text.lower (Path.ending file)) text = .ok (.obj fields)

/-- A configuration file: its path and the entries in it. -/
structure ConfigFile where
  path : String
  fields : List (String × Json)

/-- The configuration file that is used: the named one, otherwise the first standard one that
exists. -/
inductive UsedFile (files : String → FileState) : Option String → Option ConfigFile → Prop
  | named {file : String} {fields : List (String × Json)} (hname : file ≠ "")
      (h : Holds files file fields) : UsedFile files (some file) (some ⟨file, fields⟩)
  | standard {name : Option String} {file : String} {fields : List (String × Json)}
      (hname : name = none ∨ name = some "")
      (hfirst : Config.standardFiles.find? (fun file => (files file).exists?) = some file)
      (h : Holds files file fields) : UsedFile files name (some ⟨file, fields⟩)
  | absent {name : Option String} (hname : name = none ∨ name = some "")
      (habsent : ∀ file ∈ Config.standardFiles, (files file).exists? = false) :
      UsedFile files name none

/-- The modules of a modules file, if there is one. -/
inductive ModulesOf (files : String → FileState) : Option String → List ModuleEntry → Prop
  | absent : ModulesOf files none []
  | file {file : String} {fields : List (String × Json)} (h : Holds files file fields)
      (hordinary : fields.lookup "__proto__" = none) :
      ModulesOf files (some file) (Entries.listedModules fields)

/-! ## Runs -/

/-- The entries of the file that is used. -/
inductive EntriesOf : Option ConfigFile → Option Entries → Prop
  | absent : EntriesOf none none
  | present {f : ConfigFile} {d : Entries} (hordinary : Ordinary f.fields) (h : d.Of f.fields) :
      EntriesOf (some f) (some d)

namespace ConfigFile

/-- The layer of a file with given entries. -/
def layer (f : ConfigFile) (d : Entries) : ConfigLayer :=
  let layer := ConfigLayer.ofEntries d
  { layer with modulesFile := layer.modulesFile.map (ConfigLayer.besideFile f.path) }

/-- The layer of the file that is used, with given entries. -/
def usedLayer (file : Option ConfigFile) (entries : Option Entries) : Option ConfigLayer :=
  file.bind fun f => entries.map f.layer

end ConfigFile

namespace Reading

variable {α β : Type} {files : String → FileState}

theorem run_bind {x : Reading α} {a : α} (h : x.run files = .ok a) (g : α → Reading β) :
    (x >>= g).run files = (g a).run files := by
  change (x.bind g).run files = _
  induction x with
  | done b =>
    cases h
    rfl
  | fail f => cases h
  | look path next ih => exact ih (files path) h

theorem run_state (path : String) : (state path).run files = .ok (files path) := rfl

theorem run_lift (x : Except Fault α) : (lift x).run files = x := by
  cases x <;> rfl

end Reading

/-- A file that holds an object is read as the layer of its entries. -/
theorem Holds.run_ofFile {files : String → FileState} {f : ConfigFile}
    (h : Holds files f.path f.fields) (hproto : f.fields.lookup "__proto__" = none)
    (kind : String) : ∃ d : Entries, d.Of f.fields ∧
      (ConfigLayer.ofFile kind f.path).run files = .ok (f.layer d) := by
  obtain ⟨d, hd, hof⟩ := Entries.of_ofJson? hproto
  obtain ⟨text, hstate, hdata⟩ := h.text
  refine ⟨d, hof, ?_⟩
  have hread : (Reading.text f.path).run files = .ok text := by
    unfold Reading.text
    rw [if_neg (by simpa using h.no_null), Reading.run_bind (Reading.run_state f.path), hstate]
    rfl
  have hlayer : ConfigLayer.ofText f.path text = .ok (f.layer d) := by
    unfold ConfigLayer.ofText
    rw [hdata]
    simp only [bind, Except.bind, hd]
    rfl
  unfold ConfigLayer.ofFile
  rw [Reading.run_bind (Reading.run_state f.path), hstate]
  dsimp only
  rw [Reading.run_bind hread, Reading.run_lift, hlayer]

namespace Config

variable {files : String → FileState}

theorem nonempty_eq_some_iff {x : Option String} {s : String} :
    nonempty x = some s ↔ x = some s ∧ s ≠ "" := by
  simp [nonempty, Option.filter_eq_some_iff]

theorem run_firstFile? (paths : List String) :
    (firstFile? paths).run files = .ok (paths.find? fun path => (files path).exists?) := by
  induction paths with
  | nil => rfl
  | cons path rest ih =>
    rw [firstFile?, Reading.run_bind (Reading.run_state path), List.find?_cons]
    cases (files path).exists? with
    | true => rfl
    | false => exact ih

end Config

/-- The layer of the used file is that of its entries. -/
theorem UsedFile.run_fileLayers {files : String → FileState} {name : Option String}
    {source : Option ConfigFile} (h : UsedFile files name source)
    (hordinary : ∀ f ∈ source, Ordinary f.fields) :
    ∃ entries, EntriesOf source entries ∧ (Config.fileLayers name).run files =
      .ok (ConfigFile.usedLayer source entries).toList := by
  have hempty {name : Option String} (hname : name = none ∨ name = some "") :
      Config.nonempty name = none := by
    obtain rfl | rfl := hname <;> rfl
  have hread {file : String} {fields : List (String × Json)} (hfile : Holds files file fields)
      (hfields : Ordinary fields) : ∃ d, EntriesOf (some ⟨file, fields⟩) (some d) ∧
        (ConfigLayer.ofFile Config.fileKind file).run files =
          .ok (ConfigFile.layer ⟨file, fields⟩ d) := by
    obtain ⟨d, hof, hrun⟩ := Holds.run_ofFile (f := ⟨file, fields⟩) hfile hfields.own
      Config.fileKind
    exact ⟨d, .present hfields hof, hrun⟩
  cases h with
  | @named file fields hname hfile =>
    obtain ⟨d, hd, hrun⟩ := hread hfile (hordinary _ rfl)
    refine ⟨some d, hd, ?_⟩
    rw [Config.fileLayers, Config.nonempty_eq_some_iff.mpr ⟨rfl, hname⟩]
    exact Reading.run_bind hrun _
  | @standard _ file fields hname hfirst hfile =>
    obtain ⟨d, hd, hrun⟩ := hread hfile (hordinary _ rfl)
    refine ⟨some d, hd, ?_⟩
    rw [Config.fileLayers, hempty hname]
    dsimp only
    rw [Reading.run_bind (Config.run_firstFile? _), hfirst]
    exact Reading.run_bind hrun _
  | absent hname habsent =>
    refine ⟨none, .absent, ?_⟩
    rw [Config.fileLayers, hempty hname]
    dsimp only
    rw [Reading.run_bind (Config.run_firstFile? _),
      List.find?_eq_none.mpr fun file hfile => by simp [habsent file hfile]]
    rfl

/-- The modules of a modules file are what is read from it. -/
theorem ModulesOf.run_modulesOfFile {files : String → FileState} {file : String}
    {more : List ModuleEntry} (h : ModulesOf files (some file) more) :
    (Config.modulesOfFile file).run files = .ok more := by
  cases h with
  | @file _ fields hfile hordinary =>
    obtain ⟨d, hof, hrun⟩ := Holds.run_ofFile (f := ⟨file, fields⟩) hfile hordinary
      "Module config file"
    rw [Config.modulesOfFile, Reading.run_bind hrun]
    exact congrArg Except.ok hof.modules

end Wordstack
