import Wordstack.Cli.Arguments
import Wordstack.Proofs.Config.Files

/-!
# Which source decides a setting

Overrides win over the file, the file over the environment, and the environment over the defaults,
for each setting by itself. A level has a say in a setting only with a value that can be used for
it.

- **Levels** (`Decided`): the value of the first level that has one.
- **Settings** (`Precedence`): all of them, level by level.
- **Layers** (`EntriesOf.givesIn_iff`, `Environment.gives_iff`): what a layer says is what its
  source gives.
- **Loading** (`settings_by_precedence`).
-/

namespace Wordstack

/-! ## Levels -/

/-- What a setting comes to: the value of the first level that has one. -/
inductive Decided {α : Type} (override file env : α → Prop) (standard : α) : α → Prop
  | override {a : α} (h : override a) : Decided override file env standard a
  | file {a : α} (hover : ∀ b, ¬ override b) (h : file a) : Decided override file env standard a
  | env {a : α} (hover : ∀ b, ¬ override b) (hfile : ∀ b, ¬ file b) (h : env a) :
      Decided override file env standard a
  | standard (hover : ∀ b, ¬ override b) (hfile : ∀ b, ¬ file b) (henv : ∀ b, ¬ env b) :
      Decided override file env standard standard

namespace Decided

variable {α : Type} {override file env : α → Prop} {standard : α} {x y z : Option α}

theorem iff_getD (hx : ∀ a, override a ↔ x = some a) (hy : ∀ a, file a ↔ y = some a)
    (hz : ∀ a, env a ↔ z = some a) {a : α} :
    Decided override file env standard a ↔ x.getD (y.getD (z.getD standard)) = a := by
  obtain rfl : override = (x = some ·) := funext fun a => propext (hx a)
  obtain rfl : file = (y = some ·) := funext fun a => propext (hy a)
  obtain rfl : env = (z = some ·) := funext fun a => propext (hz a)
  constructor
  · intro h
    cases h with
    | override h => simp [h]
    | file hover h => simp [Option.eq_none_iff_forall_ne_some.mpr hover, h]
    | env hover hfile h =>
      simp [Option.eq_none_iff_forall_ne_some.mpr hover,
        Option.eq_none_iff_forall_ne_some.mpr hfile, h]
    | standard hover hfile henv =>
      simp [Option.eq_none_iff_forall_ne_some.mpr hover,
        Option.eq_none_iff_forall_ne_some.mpr hfile, Option.eq_none_iff_forall_ne_some.mpr henv]
  · rintro rfl
    match x, y, z with
    | some a, _, _ => exact .override rfl
    | none, some a, _ => exact .file (by simp) rfl
    | none, none, some a => exact .env (by simp) (by simp) rfl
    | none, none, none => exact .standard (by simp) (by simp) (by simp)

end Decided

/-! ## Settings -/

namespace ConfigFile

/-- A usable value of the file for a setting in one of its parts. -/
def GivesIn {α : Type} (file : Option ConfigFile) (part : String) (keys : List String)
    (usable : Json → α → Prop) (a : α) : Prop :=
  ∃ f ∈ file, ∃ inner x, f.fields.lookup part = some (.obj inner) ∧ Held inner keys x ∧ usable x a

/-- A usable value of the file for a setting of its own. -/
def Gives {α : Type} (file : Option ConfigFile) (keys : List String) (usable : Json → α → Prop)
    (a : α) : Prop :=
  ∃ f ∈ file, ∃ x, Held f.fields keys x ∧ usable x a

/-- The modules that the file lists itself. -/
def modules (file : Option ConfigFile) : List ModuleEntry :=
  (file.map fun f => Entries.listedModules f.fields).getD []

/-- A path as seen from where the file is seen: a relative one starts at the file's directory. -/
def beside (f : ConfigFile) (path : String) : String :=
  if Path.isAbsolute path then path else Path.join (Path.directory f.path) path

end ConfigFile

/-- A usable value of the environment. -/
def Environment.Gives {α : Type} (env : Environment) (name : String) (usable : String → α → Prop)
    (a : α) : Prop :=
  ∃ value, env.lookup (Config.variablePrefix ++ "_" ++ name) = some value ∧ usable value a

/-- A text that is not empty. -/
def IsFilled (value s : String) : Prop := value = s ∧ s ≠ ""

section

variable (env : Environment) (file : Option ConfigFile) (override : ConfigLayer)

/-- The path of the modules file, if any level has one: the environment and the overrides say it as
it is, the file as seen from its directory. -/
def ModulesFileIs : Option String → Prop :=
  Decided (fun path => ∃ s, path = some s ∧ override.modulesFile = some s)
    (fun path => ∃ f ∈ file, ∃ s, Held f.fields ["modulesConfig", "modules_config"] (.str s) ∧
      s ≠ "" ∧ path = some (f.beside s))
    (fun path => ∃ s, path = some s ∧ env.Gives "MODULES_CONFIG" IsFilled s) none

/-- Each setting of a configuration is decided by the first of the overrides, the file, the
environment and the defaults that has a usable value for it. -/
structure Precedence (c : Config) : Prop where
  host : Decided (override.server.host = some ·)
    (ConfigFile.GivesIn file "server" ["host"] fun x s => x = .str s)
    (env.Gives "HOST" IsFilled) Config.standard.server.host c.server.host
  port : Decided (override.server.port = some ·)
    (ConfigFile.GivesIn file "server" ["port"] IsNumber)
    (env.Gives "PORT" fun value n => Binary64.leadingInt value = some n)
    Config.standard.server.port c.server.port
  timeout : Decided (override.server.timeout = some ·)
    (ConfigFile.GivesIn file "server" ["requestTimeoutMs", "request_timeout_ms"] IsNumber)
    (env.Gives "REQUEST_TIMEOUT_MS" fun value n => Binary64.leadingInt value = some n)
    Config.standard.server.timeout c.server.timeout
  allowOrigin : Decided (override.server.allowOrigin = some ·)
    (ConfigFile.GivesIn file "server" ["corsOrigin", "cors_origin"] fun x s => x = .str s)
    (env.Gives "CORS_ORIGIN" IsFilled) Config.standard.server.allowOrigin c.server.allowOrigin
  zone : Decided (override.interpreter.zone = some ·)
    (ConfigFile.GivesIn file "interpreter" ["timezone"] fun x s => x = .str s)
    (env.Gives "TIMEZONE" IsFilled) Config.standard.interpreter.zone c.interpreter.zone
  maxAttempts : Decided (override.interpreter.maxAttempts = some ·)
    (ConfigFile.GivesIn file "interpreter" ["maxAttempts", "max_attempts"] IsNumber)
    (env.Gives "MAX_ATTEMPTS" fun value n => Binary64.leadingInt value = some n)
    Config.standard.interpreter.maxAttempts c.interpreter.maxAttempts
  level : Decided (override.level = some ·)
    (ConfigFile.Gives file ["logLevel", "log_level"] IsLevel)
    (env.Gives "LOG_LEVEL" fun value l => LogLevel.ofName? (Text.lower value) = some l)
    Config.standard.level c.level
  modulesFile : ModulesFileIs env file override c.modulesFile

end

/-! ## Layers -/

namespace Environment

variable {env : Environment} {name : String}

theorem gives_filled_iff {s : String} : env.Gives name IsFilled s ↔
    Config.nonempty (env.lookup (Config.variablePrefix ++ "_" ++ name)) = some s := by
  rw [Config.nonempty_eq_some_iff]
  constructor
  · rintro ⟨_, h, rfl, hs⟩
    exact ⟨h, hs⟩
  · rintro ⟨h, hs⟩
    exact ⟨s, h, rfl, hs⟩

theorem gives_iff {α : Type} {read : String → Option α} {a : α} :
    (env.Gives name fun value b => read value = some b) a ↔
      (env.lookup (Config.variablePrefix ++ "_" ++ name)).bind read = some a := by
  rw [Option.bind_eq_some_iff]
  rfl

end Environment

namespace Path

theorem normalize_ne_empty (path : String) : normalize path ≠ "" := by
  unfold normalize
  extract_lets absolute body body'
  split
  · simp
  · split
    · simpa using ‹(!body'.isEmpty) = true›
    · split <;> decide

theorem join_ne_empty (dir path : String) : join dir path ≠ "" := by
  unfold join
  dsimp only
  split
  · decide
  · exact normalize_ne_empty _

end Path

namespace ConfigFile

variable {f : ConfigFile} {s : String}

theorem besideFile_eq (f : ConfigFile) (hs : s ≠ "") :
    ConfigLayer.besideFile f.path s = f.beside s := by
  simp [ConfigLayer.besideFile, beside, hs]

theorem beside_ne_empty (hs : s ≠ "") : f.beside s ≠ "" := by
  unfold beside
  split
  · exact hs
  · exact Path.join_ne_empty _ _

end ConfigFile

namespace EntriesOf

open ConfigFile

variable {α : Type} {source : Option ConfigFile} {entries : Option Entries} {keys : List String}
  {usable : Json → α → Prop} {read : ConfigLayer → Option α} {a : α}

/-- What the layer of the file reads from a part of its entries is what the file gives. -/
theorem givesIn_iff (h : EntriesOf source entries) {part : String}
    (hpart : part ∈ ["server", "interpreter"]) (reader : Entries → Option α)
    (hlayer : ∀ f d, read (layer f d) = reader (d.sub part))
    (hread : ∀ (d : Entries) fields, d.Of fields →
      (reader d = some a ↔ ∃ x, Held fields keys x ∧ usable x a)) :
    GivesIn source part keys usable a ↔ (usedLayer source entries).bind read = some a := by
  cases h with
  | absent => simp [GivesIn, usedLayer]
  | @present f d hordinary hof =>
    have hkey : part ≠ "__proto__" := by
      rintro rfl
      simp at hpart
    change _ ↔ read (layer f d) = some a
    rw [hlayer]
    obtain ⟨inner, hinner, hsub⟩ | ⟨habsent, hsub⟩ := hof.sub hkey (hordinary.part part hpart)
    · rw [hread _ _ hsub]
      constructor
      · rintro ⟨g, hg, inner', x, hlookup, hx⟩
        cases Option.mem_some_iff.mp hg
        rw [hinner] at hlookup
        cases hlookup
        exact ⟨x, hx⟩
      · rintro ⟨x, hx⟩
        exact ⟨f, rfl, inner, x, hinner, hx⟩
    · refine iff_of_false ?_ ?_
      · rintro ⟨g, hg, inner, x, hlookup, -⟩
        cases Option.mem_some_iff.mp hg
        exact habsent inner hlookup
      · rw [hread _ _ hsub]
        rintro ⟨x, hx, -⟩
        exact not_held_nil hx

theorem gives_text_iff (h : EntriesOf source entries) {part s : String}
    (hpart : part ∈ ["server", "interpreter"]) (hkeys : "__proto__" ∉ keys)
    {read : ConfigLayer → Option String}
    (hlayer : ∀ f d, read (layer f d) = (d.sub part).text? keys) :
    GivesIn source part keys (fun x s => x = .str s) s ↔
      (usedLayer source entries).bind read = some s :=
  h.givesIn_iff hpart (Entries.text? · keys) hlayer fun _ _ hof => by
    simp [hof.text?_eq_some_iff hkeys]

theorem gives_number_iff (h : EntriesOf source entries) {part : String} {n : Binary64}
    (hpart : part ∈ ["server", "interpreter"]) (hkeys : "__proto__" ∉ keys)
    {read : ConfigLayer → Option Binary64}
    (hlayer : ∀ f d, read (layer f d) = (d.sub part).number? keys) :
    GivesIn source part keys IsNumber n ↔ (usedLayer source entries).bind read = some n :=
  h.givesIn_iff hpart (Entries.number? · keys) hlayer fun _ _ hof =>
    hof.number?_eq_some_iff hkeys

/-- The same for the level. -/
theorem gives_level_iff (h : EntriesOf source entries) {l : LogLevel} :
    Gives source ["logLevel", "log_level"] IsLevel l ↔
      (usedLayer source entries).bind ConfigLayer.level = some l := by
  cases h with
  | absent => simp [Gives, usedLayer]
  | @present f d _ hof =>
    have hkeys : "__proto__" ∉ ["logLevel", "log_level"] := by decide
    change _ ↔ (d.text? _).bind LogLevel.ofAnyCase? = some l
    simp only [Option.bind_eq_some_iff, hof.text?_eq_some_iff hkeys]
    constructor
    · rintro ⟨g, hg, _, hheld, s, rfl, hs⟩
      cases Option.mem_some_iff.mp hg
      exact ⟨s, hheld, hs⟩
    · rintro ⟨s, hheld, hs⟩
      exact ⟨f, rfl, _, hheld, s, rfl, hs⟩

/-- The path that the layer has is the one in the file as seen from its directory. -/
theorem gives_modulesFile_iff (h : EntriesOf source entries) {path : Option String} :
    (∃ f ∈ source, ∃ s, Held f.fields ["modulesConfig", "modules_config"] (.str s) ∧ s ≠ "" ∧
      path = some (f.beside s)) ↔
    ((usedLayer source entries).bind fun l => (Config.nonempty l.modulesFile).map some) =
      some path := by
  cases h with
  | absent => simp [usedLayer]
  | @present f d _ hof =>
    have hkeys : "__proto__" ∉ ["modulesConfig", "modules_config"] := by decide
    change _ ↔ (Config.nonempty ((d.text? _).map _)).map some = some path
    simp only [Option.map_eq_some_iff, Config.nonempty_eq_some_iff,
      hof.text?_eq_some_iff hkeys]
    constructor
    · rintro ⟨g, hg, s, hheld, hs, rfl⟩
      cases Option.mem_some_iff.mp hg
      exact ⟨_, ⟨⟨s, hheld, f.besideFile_eq hs⟩, beside_ne_empty hs⟩, rfl⟩
    · rintro ⟨_, ⟨⟨s, hheld, rfl⟩, hne⟩, rfl⟩
      have hs : s ≠ "" := by
        rintro rfl
        exact hne rfl
      exact ⟨f, rfl, s, hheld, hs, by rw [f.besideFile_eq hs]⟩

theorem modules_eq (h : EntriesOf source entries) :
    ((usedLayer source entries).bind ConfigLayer.modules).getD [] = ConfigFile.modules source := by
  cases h with
  | absent => rfl
  | @present f d _ hof => exact hof.modules

end EntriesOf

/-! ## Loading -/

namespace Config

/-- A setting that layers set one over the other is decided by the last of them that has it. -/
theorem decided_merge_iff {α : Type} (get : Config → α) (read : ConfigLayer → Option α)
    (hset : ∀ c l, get (c.set l) = (read l).getD (get c)) {env override : ConfigLayer}
    {file : Option ConfigLayer} {byOver byFile byEnv : α → Prop} {a : α}
    (hover : ∀ a, byOver a ↔ read override = some a)
    (hfile : ∀ a, byFile a ↔ file.bind read = some a) (henv : ∀ a, byEnv a ↔ read env = some a) :
    Decided byOver byFile byEnv (get standard) a ↔
      get (merge (env :: file.toList ++ [override])) = a := by
  rw [Decided.iff_getD hover hfile henv]
  cases file <;> simp [merge, hset]

theorem nonempty_idem (s : Option String) : nonempty (nonempty s) = nonempty s := by
  simp [nonempty]

end Config

section

variable {env : Environment} {source : Option ConfigFile} {override : ConfigLayer}
  {entries : Option Entries}

/-- The configuration of all levels. -/
def Config.ofLevels (env : Environment) (source : Option ConfigFile) (entries : Option Entries)
    (override : ConfigLayer) : Config :=
  merge (ConfigLayer.ofEnvironment variablePrefix env ::
    (ConfigFile.usedLayer source entries).toList ++ [override])

theorem modulesFileIs_iff (h : EntriesOf source entries)
    (hover : Config.nonempty override.modulesFile = override.modulesFile) {path : Option String} :
    ModulesFileIs env source override path ↔
      (Config.ofLevels env source entries override).modulesFile = path := by
  refine Config.decided_merge_iff Config.modulesFile
    (fun l => (Config.nonempty l.modulesFile).map some) ?_ ?_ (fun _ => h.gives_modulesFile_iff) ?_
  · intro c l
    change (Config.nonempty l.modulesFile).or c.modulesFile = _
    cases Config.nonempty l.modulesFile <;> rfl
  · intro path
    rw [hover, Option.map_eq_some_iff]
    simp only [and_comm, eq_comm]
  · intro path
    change _ ↔ (Config.nonempty (Config.nonempty _)).map some = _
    simp only [Config.nonempty_idem, Option.map_eq_some_iff, ← Environment.gives_filled_iff]
    simp only [and_comm, eq_comm]

/-- A setting that each layer sets by itself is decided by the first level that gives it. -/
theorem Config.decided_ofLevels {α : Type} (get : Config → α) (read : ConfigLayer → Option α)
    {byFile byEnv : α → Prop} (hset : ∀ c l, get (c.set l) = (read l).getD (get c))
    (hfile : ∀ a, byFile a ↔ (ConfigFile.usedLayer source entries).bind read = some a)
    (henv : ∀ a, byEnv a ↔ read (ConfigLayer.ofEnvironment variablePrefix env) = some a) :
    Decided (read override = some ·) byFile byEnv (get standard)
      (get (ofLevels env source entries override)) :=
  (decided_merge_iff get read hset (fun _ => Iff.rfl) hfile henv).mpr rfl

theorem Config.precedence_ofLevels (h : EntriesOf source entries)
    (hover : Config.nonempty override.modulesFile = override.modulesFile) :
    Precedence env source override (Config.ofLevels env source entries override) where
  host := decided_ofLevels (fun c => c.server.host) (fun l => l.server.host) (fun _ _ => rfl)
    (fun _ => h.gives_text_iff (by decide) (by decide) fun _ _ => rfl)
    fun _ => Environment.gives_filled_iff
  port := decided_ofLevels (fun c => c.server.port) (fun l => l.server.port) (fun _ _ => rfl)
    (fun _ => h.gives_number_iff (by decide) (by decide) fun _ _ => rfl)
    fun _ => Environment.gives_iff
  timeout := decided_ofLevels (fun c => c.server.timeout) (fun l => l.server.timeout)
    (fun _ _ => rfl) (fun _ => h.gives_number_iff (by decide) (by decide) fun _ _ => rfl)
    fun _ => Environment.gives_iff
  allowOrigin := decided_ofLevels (fun c => c.server.allowOrigin) (fun l => l.server.allowOrigin)
    (fun _ _ => rfl) (fun _ => h.gives_text_iff (by decide) (by decide) fun _ _ => rfl)
    fun _ => Environment.gives_filled_iff
  zone := decided_ofLevels (fun c => c.interpreter.zone) (fun l => l.interpreter.zone)
    (fun _ _ => rfl) (fun _ => h.gives_text_iff (by decide) (by decide) fun _ _ => rfl)
    fun _ => Environment.gives_filled_iff
  maxAttempts := decided_ofLevels (fun c => c.interpreter.maxAttempts)
    (fun l => l.interpreter.maxAttempts) (fun _ _ => rfl)
    (fun _ => h.gives_number_iff (by decide) (by decide) fun _ _ => rfl)
    fun _ => Environment.gives_iff
  level := decided_ofLevels Config.level ConfigLayer.level (fun _ _ => rfl)
    (fun _ => h.gives_level_iff) fun _ => Environment.gives_iff
  modulesFile := (modulesFileIs_iff h hover).mpr rfl

/-- The modules are those of the file if no override lists any. -/
theorem Config.modules_ofLevels (h : EntriesOf source entries) (hover : override.modules = none) :
    (Config.ofLevels env source entries override).modules = ConfigFile.modules source := by
  rw [← h.modules_eq]
  unfold ofLevels
  cases ConfigFile.usedLayer source entries <;>
    simp [merge, set, hover, standard, ConfigLayer.ofEnvironment]

end

/-- What is loaded: the layers over each other, and the modules of the modules file behind
theirs. -/
theorem Config.run_load {files : String → FileState} {env : Environment} {name : Option String}
    {layers : List ConfigLayer} {overrides : Option ConfigLayer} {c : Config}
    {more : List ModuleEntry} (hlayers : (fileLayers name).run files = .ok layers)
    (hc : merge (ConfigLayer.ofEnvironment variablePrefix env :: layers ++ overrides.toList) = c)
    (hmore : ModulesOf files c.modulesFile more) :
    (load env name overrides).run files = .ok { c with modules := c.modules ++ more } := by
  rw [load, Reading.run_bind hlayers]
  dsimp only
  rw [hc]
  obtain ⟨_, _, _, modules, file⟩ := c
  cases file with
  | none =>
    cases hmore
    rw [List.append_nil]
    rfl
  | some file => exact Reading.run_bind hmore.run_modulesOfFile _

/-- Each setting of a loaded configuration is the one of the first source in order that has a usable
value for it: the overrides of a command line, the file, the environment and the defaults. The
modules are those that the file lists, then those of the modules file. -/
theorem settings_by_precedence {files : String → FileState} {env : Environment}
    {name : Option String} {source : Option ConfigFile} {a : Arguments} {path : Option String}
    {more : List ModuleEntry} (hsource : UsedFile files name source)
    (hordinary : ∀ f ∈ source, Ordinary f.fields)
    (hpath : ModulesFileIs env source a.overrides path) (hmore : ModulesOf files path more) :
    ∃ c, (Config.load env name (some a.overrides)).run files = .ok c ∧
      Precedence env source a.overrides c ∧ c.modules = ConfigFile.modules source ++ more := by
  obtain ⟨entries, hentries, hlayers⟩ := hsource.run_fileLayers hordinary
  have hover : Config.nonempty a.overrides.modulesFile = a.overrides.modulesFile :=
    Config.nonempty_idem _
  let c := Config.ofLevels env source entries a.overrides
  have hprecedence : Precedence env source a.overrides c :=
    Config.precedence_ofLevels hentries hover
  have hmodules : c.modules = ConfigFile.modules source := Config.modules_ofLevels hentries rfl
  have hfile : c.modulesFile = path := (modulesFileIs_iff hentries hover).mp hpath
  refine ⟨{ c with modules := c.modules ++ more }, ?_, { hprecedence with }, by rw [hmodules]⟩
  exact Config.run_load hlayers rfl (hfile ▸ hmore)

/-- A number and a level that cannot be used are passed over. -/
theorem settings_by_precedence_passed_over :
    let files := FileTree.state
      [("forthic.config.yml", "server:\n  port: many\nlogLevel: loud\nlog_level: debug\n" ++
          "modules:\n  - a\nmodulesConfig: b.yml"),
        ("b.yml", "modules:\n  - b\n  - c")]
    let source := ConfigFile.mk "forthic.config.yml" [("server", .obj [("port", .str "many")]),
      ("logLevel", .str "loud"), ("log_level", .str "debug"), ("modules", .arr [.str "a"]),
      ("modulesConfig", .str "b.yml")]
    let env := [("FORTHIC_PORT", "80"), ("FORTHIC_HOST", "h"), ("FORTHIC_LOG_LEVEL", "Warn")]
    let override := (Arguments.read ["--timezone", "Asia/Tokyo"]).overrides
    ∃ c, (Config.load env none (some override)).run files = .ok c ∧
      Precedence env (some source) override c ∧ c.modules.length = 3 := by
  intro files source env override
  have hsource : UsedFile files none (some source) :=
    .standard (.inl rfl) rfl ⟨by decide, _, rfl, rfl⟩
  have hordinary : ∀ f ∈ some source, Ordinary f.fields := by
    rintro _ ⟨⟩
    refine ⟨rfl, ?_⟩
    simp [source, List.lookup_cons]
  have hover : override.modulesFile = none := by decide
  have hpath : ModulesFileIs env (some source) override (some "b.yml") := by
    refine .file ?_ ⟨source, rfl, "b.yml", .here rfl, by decide, congrArg some (by decide)⟩
    rintro _ ⟨_, -, h⟩
    rw [hover] at h
    cases h
  have hmore : ModulesOf files (some "b.yml")
      (Entries.listedModules [("modules", .arr [.str "b", .str "c"])]) :=
    .file ⟨by decide, _, rfl, rfl⟩ rfl
  obtain ⟨c, hrun, hprecedence, hmodules⟩ := settings_by_precedence hsource hordinary hpath hmore
  exact ⟨c, hrun, hprecedence, by rw [hmodules]; rfl⟩

/-- The path of a modules file is not always the one that the file has. -/
theorem modules_file_is_seen_from_config_file :
    let files := FileTree.state
      [("conf/f.yaml", "modulesConfig: m.yaml"), ("conf/m.yaml", ""), ("m.yaml", "")]
    UsedFile files (some "conf/f.yaml")
      (some ⟨"conf/f.yaml", [("modulesConfig", .str "m.yaml")]⟩) ∧
    ∃ c, (Config.load [] (some "conf/f.yaml") (some (Arguments.read []).overrides)).run files =
      .ok c ∧ c.modulesFile ≠ some "m.yaml" :=
  have hfile : ¬ "conf/m.yaml" = "m.yaml" := by decide
  ⟨.named (by decide) ⟨by decide, _, rfl, rfl⟩, _, rfl, fun h => hfile (Option.some.inj h)⟩

end Wordstack
