import Wordstack.Proofs.Runs.Compiled

/-!
# Stops on purpose

A stop that native code raises passes every definition, memo word, run and word around it, and the
outermost run ends with it. Two places do not let it pass: the handlers of a word, whose own faults
count as declining, and the run of a module's source, whose faults are the module's.

- **Where stops come from** (`Raises`): a piece of work comes to code that raises a stop, through the
  places that catch it (`Catcher`).
- **Where they go** (`Raises.ends`): work ends with the stop unless there are such places, by
  induction on the way to it, one case for each construct.
- **Runs** (`stop_reaches_run`).
-/

namespace Wordstack

/-! ## Where stops come from -/

/-- Work that is done piece by piece. -/
inductive Work : Type 1 where
  | run (source : String) (origin : Location)
  | tokens (bound : Nat) (sc : Scanner)
  | word (w : Word)
  | body (name : String) (call : Option Location) (entries : List (Word × Location))
  | code {α : Type} (x : Native α)
  /-- The handlers of a word try a fault. -/
  | handlers (hs : List Handler) (name : String) (f : Fault)
  | module (m : Nat)
  | pending (bound : Nat)
  | imports (imports : List (String × String))

/-- Work that lets no stop through. -/
def Work.Catches : Work → Prop
  | .handlers .. | .module _ | .pending _ | .imports _ => True
  | _ => False

/-- What catches the stops of the work inside of it. -/
inductive Catcher where
  | handler
  | moduleSource

/-- Work, begun where runs may be nested `depth` deep, comes to code that raises the stop `m`. The
list names what catches it on its way, the outermost first. -/
inductive Raises : Nat → Work → Interp → Store → List Catcher → String → Prop
  | stop {α : Type} (m : String) :
      Raises depth (.code (.fail (.stopped m) : Native α)) i s [] m
  | reply {α : Type} {q : Query} {next : q.Reply → Native α} {r : q.Reply}
      (hq : (answer (nested depth) q).finish i s = .ended (.ok r) j t)
      (h : Raises depth (.code (next r)) j t cs m) : Raises depth (.code (.ask q next)) i s cs m
  | nestedRun {α : Type} {next : (Query.run source).Reply → Native α}
      (h : Raises depth (.run source .origin) i s cs m) :
      Raises (depth + 1) (.code (.ask (.run source) next)) i s cs m
  /-- Code that tries a source has to pass stops on. -/
  | attempt {α : Type} {next : (Query.attempt source).Reply → Native α}
      (hnext : ∀ f : Fault, f.isStop = true → next (some f : Option Fault) = .fail f)
      (h : Raises depth (.run source .origin) i s cs m) :
      Raises (depth + 1) (.code (.ask (.attempt source) next)) i s cs m
  | useModules {α : Type} {next : (Query.useModules imports).Reply → Native α}
      (h : Raises depth (.imports imports) i s cs m) :
      Raises depth (.code (.ask (.useModules imports) next)) i s cs m
  | definition (h : Raises depth (.body label.name i.call body) i s cs m) :
      Raises depth (.word (.definition label body)) i s cs m
  | native
      (ho : (if hasOptions then takeOptions else pure Options.empty : Task Options).finish i s =
        .ended (.ok options) i₁ s₁)
      (ha : (Task.popN inputs).finish i₁ s₁ = .ended (.ok args) j t)
      (h : Raises depth (.code (code args options)) j t cs m) :
      Raises depth (.word (.native label inputs hasOptions waits code hs)) i s cs m
  | nativeHandled
      (hf : (callNative (nested depth) inputs hasOptions waits code).finish i s =
        .ended (.fault f) j t)
      (hstop : f.isStop = false) (h : Raises depth (.handlers hs label.name f) j t cs m) :
      Raises depth (.word (.native label inputs hasOptions waits code hs)) i s cs m
  | direct (h : Raises depth (.code code) i s cs m) :
      Raises depth (.word (.direct label waits code hs)) i s cs m
  | directHandled (hf : (perform (nested depth) code).finish i s = .ended (.fault f) j t)
      (hstop : f.isStop = false) (h : Raises depth (.handlers hs label.name f) j t cs m) :
      Raises depth (.word (.direct label waits code hs)) i s cs m
  | memo (hv : (s.memo cell).value = none) (hc : (s.memo cell).current = none)
      (h : Raises depth (.word w) i (s.beginMemo cell) cs m) :
      Raises depth (.word (.memo label cell w)) i s cs m
  | memoRefresh (hc : (s.memo cell).current = none)
      (h : Raises depth (.word w) i (s.beginMemo cell) cs m) :
      Raises depth (.word (.memoRefresh label cell w)) i s cs m
  | memoReload (hc : (s.memo cell).current = none)
      (h : Raises depth (.word w) i (s.beginMemo cell) cs m) :
      Raises depth (.word (.memoReload label cell w)) i s cs m
  | firstHandler (hh : Raises depth (.code (h f)) i s cs m) :
      Raises depth (.handlers (h :: hs) name f) i s (.handler :: cs) m
  | nextHandler (hg : (perform (nested depth) (h f)).finish i s = .ended (.fault g) j t)
      (hh : Raises depth (.handlers hs name f) j
        (t.log .debug "word" ("error handler for " ++ name ++ " declined: " ++ g.message)) cs m) :
      Raises depth (.handlers (h :: hs) name f) i s cs m
  | firstEntry (h : Raises depth (.word w) (i.dispatching w (some l)) s cs m) :
      Raises depth (.body name call ((w, l) :: rest)) i s cs m
  | nextEntry (hw : (dispatch (nested depth) w (some l)).finish i s = .ended (.ok ()) j t)
      (h : Raises depth (.body name call rest) j t cs m) :
      Raises depth (.body name call ((w, l) :: rest)) i s cs m
  | firstToken (hn : Scanner.next sc = (.ok k, sc')) (hw : k.word? i s = some w)
      (hc : i.compiling = false)
      (h : Raises depth (.word w) (i.dispatching w (some k.location)) s cs m) :
      Raises depth (.tokens (bound + 1) sc) i s cs m
  | nextToken (hn : Scanner.next sc = (.ok k, sc')) (hk : k.kind ≠ .eos)
      (ht : (handleToken (nested depth) k).finish i s = .ended (.ok ()) j t)
      (h : Raises depth (.tokens bound sc') (j.moved j.inputs j.call (some k.location)) t cs m) :
      Raises depth (.tokens (bound + 1) sc) i s cs m
  | begun (hb : Task.Begins (nested depth) i s j t)
      (h : Raises depth
        (.tokens ((Scanner.start source origin).rest.length + 1) (Scanner.start source origin))
        (j.beginRun (Scanner.start source origin).input) t cs m) :
      Raises depth (.run source origin) i s cs m
  | pending (hin : i.inputs = []) (h : Raises depth (.pending i.pending.length) i s cs m) :
      Raises depth (.run source origin) i s cs m
  | firstPending (hp : i.pending = n :: rest)
      (h : Raises depth (.module n) (i.await rest) s cs m) :
      Raises depth (.pending (bound + 1)) i s cs m
  | nextPending (hp : i.pending = n :: rest)
      (hn : (initializeModule (nested depth) n).finish (i.await rest) s = .ended (.ok ()) j t)
      (h : Raises depth (.pending bound) j t cs m) : Raises depth (.pending (bound + 1)) i s cs m
  | source (hn : ((s.module n).isReady || i.initializing.contains n) = false)
      (h : Raises depth (.run (s.module n).source (s.module n).origin) (i.enterModule n) s cs m) :
      Raises (depth + 1) (.module n) i s (.moduleSource :: cs) m
  | firstImport (hn : i.findModule name = .ok n) (h : Raises depth (.module n) i s cs m) :
      Raises depth (.imports ((name, qualifier) :: rest)) i s cs m
  | nextImport (hn : (useModules (nested depth) [first]).finish i s = .ended (.ok ()) j t)
      (h : Raises depth (.imports rest) j t cs m) : Raises depth (.imports (first :: rest)) i s cs m

/-! ## The machine around a stop -/

section Steps

variable {e : Nested} {α : Type} {i j : Interp} {s t : Store} {f : Fault}

theorem finish_perform_ask {q : Query} {next : q.Reply → Native α} :
    (perform e (.ask q next)).finish i s =
      ((answer e q).finish i s).bind fun r i s => (perform e (next r)).finish i s := by
  rw [perform, Task.finish_bind]

theorem finish_perform_run {source : String} {next : (Query.run source).Reply → Native α}
    (h : (e.run source .origin).finish i s = .ended (.fault f) j t) :
    (perform e (.ask (.run source) next)).finish i s = .ended (.fault f) j t := by
  have hanswer : (answer e (.run source)).finish i s = .ended (.fault f) j t :=
    (Task.finish_call ..).trans h
  rw [finish_perform_ask, hanswer]
  rfl

theorem finish_perform_attempt {source : String} {next : (Query.attempt source).Reply → Native α}
    (h : (e.run source .origin).finish i s = .ended (.fault f) j t) :
    (perform e (.ask (.attempt source) next)).finish i s =
      (perform e (next (some f : Option Fault))).finish j t := by
  have hanswer : (answer e (.attempt source)).finish i s = .ended (.ok (some f)) j t := by
    unfold answer
    rw [Task.finish_bind, Task.finish_attempt, Task.finish_call, h]
    rfl
  rw [finish_perform_ask, hanswer]
  rfl

/-- Handlers are not asked about stops. -/
theorem finish_guarded_stop {label : WordLabel} {hs : List Handler} {x : Task Unit}
    (hstop : f.isStop = true) (h : x.finish i s = .ended (.fault f) j t) :
    (guarded e label hs x).finish i s = .ended (.fault f) j t := by
  unfold guarded
  rw [Task.finish_bind, Task.finish_attempt, h]
  show (Task.call (recover e label hs f)).finish j t = _
  rw [Task.finish_call]
  unfold recover
  rw [if_pos hstop]
  rfl

theorem finish_callNative_fault {inputs : Nat} {hasOptions waits : Bool}
    {code : List Val → Options → Native (Option Val)} {options : Options} {args : List Val}
    {i₁ i₂ : Interp} {s₁ s₂ : Store}
    (ho : (if hasOptions then takeOptions else pure Options.empty : Task Options).finish i s =
      .ended (.ok options) i₁ s₁)
    (ha : (Task.popN inputs).finish i₁ s₁ = .ended (.ok args) i₂ s₂)
    (h : (perform e (code args options)).finish i₂ s₂ = .ended (.fault f) j t) :
    (callNative e inputs hasOptions waits code).finish i s = .ended (.fault f) j t := by
  have hrest : (do
      let args ← Task.popN inputs
      let result ← Task.callCode waits (perform e (code args options))
      Task.pushSome result : Task Unit).finish i₁ s₁ = .ended (.fault f) j t := by
    rw [Task.finish_bind, ha, Outcome.bind_ok, Task.finish_bind, Task.finish_callCode, h]
    rfl
  unfold callNative
  cases hasOptions with
  | true =>
    show (takeOptions >>= fun _ => _ : Task Unit).finish i s = _
    rw [Task.finish_bind]
    exact (congrArg (Outcome.bind · _) ho).trans hrest
  | false =>
    obtain ⟨rfl, rfl, rfl⟩ : Options.empty = options ∧ i = i₁ ∧ s = s₁ := by
      cases ho
      exact ⟨rfl, rfl, rfl⟩
    exact hrest

theorem finish_refresh_fault {cell : Nat} {run : Task Unit} (hc : (s.memo cell).current = none)
    (h : run.finish i (s.beginMemo cell) = .ended (.fault f) j t) :
    (refresh cell run).finish i s = .ended (.fault f) j (t.conclude cell (.error f)) := by
  have hrun : (Task.attempt (do Task.call run; Task.pop)).finish i (s.beginMemo cell) =
      .ended (.ok (.error f)) j t := by
    rw [Task.finish_attempt, Task.finish_bind, Task.finish_call, h]
    rfl
  have hconclude : (Task.conclude cell (.error f)).finish j t =
      .ended (.fault f) j (t.conclude cell (.error f)) := by
    unfold Task.conclude
    rw [Task.finish_bind]
    show ((Task.turn >>= _ : Task Val).finish j _) = _
    rw [Task.finish_bind, Task.turn, Task.finish_call]
    rfl
  unfold Task.finish
  rw [refresh_of_idle hc]
  refine (Step.finish_bind _ _).trans ?_
  exact (congrArg (Outcome.bind · _) hrun).trans hconclude

section Memos

variable {label : WordLabel} {cell : Nat} {w : Word}

theorem finish_memo_fault (hv : (s.memo cell).value = none) (hc : (s.memo cell).current = none)
    (h : (execute e w).finish i (s.beginMemo cell) = .ended (.fault f) j t) :
    ∃ u, (execute e (.memo label cell w)).finish i s = .ended (.fault f) j u := by
  refine ⟨t.conclude cell (.error f), ?_⟩
  rw [execute, Task.finish_bind, Task.finish_view, Outcome.bind_ok, hv]
  simp only
  rw [Task.finish_bind, Task.finish_call, finish_refresh_fault hc h]
  rfl

theorem finish_memoRefresh_fault (hc : (s.memo cell).current = none)
    (h : (execute e w).finish i (s.beginMemo cell) = .ended (.fault f) j t) :
    ∃ u, (execute e (.memoRefresh label cell w)).finish i s = .ended (.fault f) j u := by
  refine ⟨t.conclude cell (.error f), ?_⟩
  rw [execute, Task.finish_bind, Task.finish_call, finish_refresh_fault hc h]
  rfl

theorem finish_memoReload_fault (hc : (s.memo cell).current = none)
    (h : (execute e w).finish i (s.beginMemo cell) = .ended (.fault f) j t) :
    ∃ u, (execute e (.memoReload label cell w)).finish i s = .ended (.fault f) j u := by
  refine ⟨t.conclude cell (.error f), ?_⟩
  rw [execute, Task.finish_bind, Task.finish_call, finish_refresh_fault hc h]
  rfl

end Memos

end Steps

/-! ## Runs without a handler -/

section

variable {depth : Nat} {i j : Interp} {s t : Store}

theorem finish_answer_unhandled {q : Query} {r : q.Reply} (hi : i.recovery = none)
    (h : (answer (nested depth) q).finish i s = .ended (.ok r) j t) : j.recovery = none := by
  have hL := Likeness.keeping_sound i false (Interp.recovery_invariant 0)
  have hself := (Task.Alike.answer hL (.exact hL rfl rfl depth) q).mono (.refl _)
    fun _ _ hr => Query.Alike.eq hr
  exact (hself.keeps_holds hi h Result.ok_ne_exhausted).2

theorem finish_takeInputs_unhandled {hasOptions : Bool} {inputs : Nat} {options : Options}
    {args : List Val} {k : Interp} {u : Store} (hi : i.recovery = none)
    (ho : (if hasOptions then takeOptions else pure Options.empty : Task Options).finish i s =
      .ended (.ok options) j t)
    (ha : (Task.popN inputs).finish j t = .ended (.ok args) k u) : k.recovery = none := by
  have hoptions : j.recovery = none := by
    have hL := Likeness.keeping_sound i false (Interp.recovery_invariant 0)
    cases hasOptions with
    | true => exact ((Task.Alike.takeOptions hL).keeps_holds hi ho Result.ok_ne_exhausted).2
    | false =>
      cases ho
      exact hi
  have hL := Likeness.keeping_sound j false (Interp.recovery_invariant 0)
  exact ((Task.Alike.popN hL inputs).keeps_holds hoptions ha Result.ok_ne_exhausted).2

end

/-! ## Where stops go -/

/-- What it means that a stop goes through a piece of work. Reading tokens ends with the fault that
was come upon as its value; handlers and modules let no stop through, so nothing is said of them. -/
def Work.EndsWith (depth : Nat) (m : String) (i : Interp) (s : Store) : Work → Prop
  | .run source origin => ∃ j t,
      (runSource (nested depth) source origin).finish i s = .ended (.fault (.stopped m)) j t
  | .tokens bound sc => i.inputs ≠ [] → ∃ sc' j t,
      (runTokens (nested depth) bound sc).finish i s = .ended (.ok (some (.stopped m, sc'))) j t
  | .word w => ∃ j t, (execute (nested depth) w).finish i s = .ended (.fault (.stopped m)) j t
  | .body name call entries => ∃ j t,
      (executeBody (nested depth) name call entries).finish i s = .ended (.fault (.stopped m)) j t
  | .code x => ∃ j t, (perform (nested depth) x).finish i s = .ended (.fault (.stopped m)) j t
  | .handlers .. | .module _ | .pending _ | .imports _ => True

/-- Handlers and modules catch the stops that come from them. -/
theorem Raises.caught {depth : Nat} {x : Work} {i : Interp} {s : Store} {cs : List Catcher}
    {m : String} (h : Raises depth x i s cs m) (hx : x.Catches) : cs ≠ [] := by
  induction h with
  | firstHandler | source => exact List.cons_ne_nil _ _
  | nextHandler _ _ ih | firstPending _ _ ih | nextPending _ _ _ ih | firstImport _ _ ih
  | nextImport _ _ ih => exact ih trivial
  | _ => exact hx.elim

/-- A stop that nothing catches ends the work, by induction on the way to it. -/
theorem Raises.ends {depth : Nat} {x : Work} {i : Interp} {s : Store} {m : String}
    (h : Raises depth x i s [] m) (hi : i.recovery = none) : x.EndsWith depth m i s := by
  generalize hcs : ([] : List Catcher) = cs at h
  induction h with
  | stop m => exact ⟨_, _, rfl⟩
  | reply hq h ih =>
    obtain ⟨j, t, hx⟩ := ih (finish_answer_unhandled hi hq) hcs
    refine ⟨j, t, ?_⟩
    rw [finish_perform_ask, hq]
    exact hx
  | nestedRun h ih =>
    obtain ⟨j, t, hx⟩ := ih hi hcs
    exact ⟨j, t, finish_perform_run hx⟩
  | attempt hnext h ih =>
    obtain ⟨j, t, hx⟩ := ih hi hcs
    refine ⟨j, t, (finish_perform_attempt hx).trans ?_⟩
    rw [hnext _ rfl]
    rfl
  | useModules h ih => exact absurd hcs.symm (h.caught trivial)
  | definition h ih =>
    obtain ⟨j, t, hx⟩ := ih hi hcs
    refine ⟨j, t, ?_⟩
    rw [execute, Task.finish_bind, Task.finish_view, Outcome.bind_ok]
    exact hx
  | native ho ha h ih =>
    obtain ⟨j, t, hx⟩ := ih (finish_takeInputs_unhandled hi ho ha) hcs
    refine ⟨j, t, ?_⟩
    rw [execute]
    exact finish_guarded_stop rfl (finish_callNative_fault ho ha hx)
  | nativeHandled _ _ h | directHandled _ _ h => exact absurd hcs.symm (h.caught trivial)
  | direct h ih =>
    obtain ⟨j, t, hx⟩ := ih hi hcs
    refine ⟨j, t, ?_⟩
    rw [execute]
    exact finish_guarded_stop rfl ((Task.finish_callCode ..).trans hx)
  | memo hv hc h ih =>
    obtain ⟨j, t, hx⟩ := ih hi hcs
    exact ⟨j, finish_memo_fault hv hc hx⟩
  | memoRefresh hc h ih =>
    obtain ⟨j, t, hx⟩ := ih hi hcs
    exact ⟨j, finish_memoRefresh_fault hc hx⟩
  | memoReload hc h ih =>
    obtain ⟨j, t, hx⟩ := ih hi hcs
    exact ⟨j, finish_memoReload_fault hc hx⟩
  | firstEntry h ih =>
    obtain ⟨j, t, hx⟩ := ih hi hcs
    refine ⟨j, t, ?_⟩
    rw [finish_executeBody_cons, finish_dispatch, hx]
    rfl
  | nextEntry hw h ih =>
    obtain ⟨j, t, hx⟩ := ih (finish_dispatch_keeps (Interp.recovery_invariant 0) hi hw
      Result.ok_ne_exhausted) hcs
    refine ⟨j, t, ?_⟩
    rw [finish_executeBody_cons, hw]
    exact hx
  | @firstToken _ sc' _ _ _ _ _ _ _ _ hn hw hc h ih =>
    intro _
    obtain ⟨j, t, hx⟩ := ih hi hcs
    refine ⟨sc', j, t, ?_⟩
    rw [finish_runTokens_next hn, finish_handleToken_of_word? hw, finish_handleWord_idle hc,
      finish_dispatch, hx]
    rfl
  | nextToken hn hk ht h ih =>
    intro hin
    obtain ⟨hinputs, hj⟩ := finish_handleToken_keeps (Interp.recovery_invariant 0) hi hin ht
      Result.ok_ne_exhausted
    obtain ⟨sc', j, t, hx⟩ := ih hj hcs (by rwa [← hinputs] at hin)
    refine ⟨sc', j, t, ?_⟩
    rw [finish_runTokens_next hn, ht, Outcome.attempt_ok, Outcome.bind_ok, finishToken, if_neg hk]
    exact hx
  | @begun depth i s j t source origin _ m hb h ih =>
    have hj : j.recovery = none := hb.keeps (Interp.recovery_invariant 0) hi
    obtain ⟨sc', k, u, hx⟩ := ih hj hcs (List.cons_ne_nil _ _)
    have hown : ∀ o, (Task.ownRun (nested depth) o (Scanner.start source origin)).finish j t =
        .ended (.fault (.stopped m)) (k.failRun j.transient) u := by
      intro o
      rw [Task.finish_ownRun, finish_runScanner (i := j.beginRun _) hj, runAllTokens, hx]
      rfl
    exact ⟨k.failRun j.transient, u, (hb.finish_runSource source origin).trans (hown _)⟩
  | pending hin h ih => exact absurd hcs.symm (h.caught trivial)
  | firstHandler | nextHandler | firstPending | nextPending | source | firstImport | nextImport =>
    trivial

/-- The core vocabulary passes the stops of sources that it tries on. -/
theorem Raises.tryRun {depth : Nat} {source : String} {i : Interp} {s : Store}
    {cs : List Catcher} {m : String} (h : Raises depth (.run source .origin) i s cs m) :
    Raises (depth + 1) (.code (Core.tryRun source)) i s cs m := by
  refine .reply (q := .stack) rfl (.attempt (fun f hf => ?_) h)
  cases f with
  | stopped m => rfl
  | _ => cases hf

/-- Stops on purpose are transparent: when a run without a handler comes to code that raises one, in
whatever definitions, memo words, sources that are run or tried and imports, it ends with that very
stop. The code must not be that of a word's handler or come from the source of a module. -/
theorem stop_reaches_run {depth : Nat} {source : String} {origin : Location} {i : Interp}
    {s : Store} {m : String} (hi : i.recovery = none)
    (h : Raises depth (.run source origin) i s [] m) : ∃ j t,
    (runSource (nested depth) source origin).finish i s = .ended (.fault (.stopped m)) j t :=
  h.ends hi

/-! ## Fixed runs -/

/-- A module that is not imported, and whose source stops. -/
def Module.stopping : Module := { name := "m", source := "STOP", isReady := false }

/-- Words that stop, that try to, that import a module, and that have handlers. -/
def stoppingWords : List Word :=
  [.direct { name := "STOP" } false (.fail (.stopped "STOP")) [],
   .definition { name := "TRYING" }
     [(.openArray, .origin), (.direct { name := "TRY" } true (Core.tryRun "STOP") [], .origin)],
   .direct { name := "USE" } true (.ask (.useModules [("m", "")]) fun _ => .done ()) [],
   .direct { name := "HANDLED" } false (.fail (.error "failed"))
     [fun _ => .fail (.stopped "STOP"), fun _ => .done ()]]

/-- A store with these words and that module. -/
def Store.stopping : Store :=
  { modules := #[{ name := "", words := stoppingWords }, .stopping], nextId := 4 }

/-- An interpreter that finds the module by its name. -/
def Interp.stopping : Interp := { Interp.blank with registered := [("m", 1)] }

/-- A source of one word comes to the word. -/
theorem Raises.oneWord {depth : Nat} {source : String} {origin : Location} {w : Word}
    {i j : Interp} {s t : Store} {cs : List Catcher} {m : String} (hsource : IsWord source)
    (hb : Task.Begins (nested depth) i s j t) (hc : j.compiling = false)
    (hw : (j.resolve t source none).toOption = some w)
    (h : ∀ text l, Raises depth (.word w) ((j.beginRun text).dispatching w l) t cs m) :
    Raises depth (.run source origin) i s cs m := by
  obtain ⟨k₀, hk₀, hkind, htext⟩ := hsource
  obtain ⟨ks, hks, hmap⟩ := (@tokenize_iff_reads source origin _).mpr
    (tokenize_iff_reads.mp ⟨[k₀], hk₀, rfl⟩)
  obtain ⟨k, rfl, hk⟩ := List.map_eq_singleton_iff.mp (map_lexeme_eq_iff.mp hmap)
  obtain ⟨bound, sc, _, _, -, -, hn, -⟩ := tokenize_one hks
  refine .begun hb (.firstToken hn ?_ hc (h _ _))
  rw [Token.word?_of_pair hk, Token.word?, hkind, htext]
  have hnames : SameNames j t (j.beginRun (Scanner.start source origin).input) t := ⟨rfl, rfl, rfl⟩
  exact (hnames.toOption_resolve source none none).trans hw

theorem stop_reaches_run_trying : ∃ j t,
    (runSource (nested 1) "TRYING" .origin).finish .stopping .stopping =
      .ended (.fault (.stopped "STOP")) j t := by
  have hstop : IsWord "STOP" := ⟨_, rfl, rfl, rfl⟩
  have htrying : IsWord "TRYING" := ⟨_, rfl, rfl, rfl⟩
  refine stop_reaches_run rfl (.oneWord htrying (.outermost rfl rfl) rfl rfl fun _ _ => ?_)
  refine .definition (.nextEntry rfl (.firstEntry (.direct (.tryRun ?_))))
  exact .oneWord hstop (.inner (List.cons_ne_nil _ _)) rfl rfl fun _ _ => .direct (.stop "STOP")

/-- Whether a task has ended with a stop. -/
def Outcome.isStop (x : Outcome Unit) : Bool :=
  match x with
  | ended (.fault f) _ _ => f.isStop
  | _ => false

/-- A source comes to code that raises a stop inside of what catches it, and does not end with it. -/
def Catcher.Stops (c : Catcher) : Prop :=
  ∃ source cs m, Raises 1 (.run source .origin) .stopping .stopping (c :: cs) m ∧
    ∀ j t, (runSource (nested 1) source .origin).finish .stopping .stopping ≠
      .ended (.fault (.stopped m)) j t

/-- Stops are caught by the handlers of a word, and around the source of a module that is
imported. -/
theorem stop_may_be_caught : Catcher.handler.Stops ∧ Catcher.moduleSource.Stops := by
  have hends : ∀ {source : String},
      ((runSource (nested 1) source .origin).finish .stopping .stopping).isStop = false →
      ∀ m j t, (runSource (nested 1) source .origin).finish .stopping .stopping ≠
        .ended (.fault (.stopped m)) j t := by
    intro source h m j t hx
    rw [hx] at h
    cases h
  have hstop : IsWord "STOP" := ⟨_, rfl, rfl, rfl⟩
  have hhandled : IsWord "HANDLED" := ⟨_, rfl, rfl, rfl⟩
  have huse : IsWord "USE" := ⟨_, rfl, rfl, rfl⟩
  constructor
  · refine ⟨"HANDLED", [], "STOP", ?_, hends (by decide +kernel) _⟩
    refine .oneWord hhandled (.outermost rfl rfl) rfl rfl fun _ _ => ?_
    exact .directHandled rfl rfl (.firstHandler (.stop "STOP"))
  · refine ⟨"USE", [], "STOP", ?_, hends (by decide +kernel) _⟩
    refine .oneWord huse (.outermost rfl rfl) rfl rfl fun _ _ => .direct (.useModules ?_)
    refine .firstImport rfl (.source rfl ?_)
    exact .oneWord hstop (.inner (List.cons_ne_nil _ _)) rfl rfl fun _ _ => .direct (.stop "STOP")

end Wordstack
