import Wordstack.Proofs.Machine.MemoCalls
import Wordstack.Proofs.Runs.DefinedWord
import Wordstack.Proofs.Runs.Stops

/-!
# Faults of tokens, and chains of calls

A run goes no further than to the first token that fails. The fault that a run of nested definitions
ends with is the chain of the calls that are active.

- **Coming to a token** (`Task.ComesTo`): a run has handled the tokens of its source before it. The
  token may stand for a word, which the run executes (`Task.Executes`).
- **Its fault** (`Task.ComesTo.stops`, `Task.ComesTo.fails`): reading stops with it, and a run that
  has no handler for it ends with it.
- **Active calls** (`ActiveCall`, `Linked`): definitions that are being executed, each called by the
  entry that the one around it is executing.
- **Chains** (`Fault.through`): a fault that has passed through active definitions.
- **Ways to calls** (`Reaches`): the execution of a word comes to that of another one, through
  entries of definitions and through memo words.
- **Faults on the way back** (`Reaches.fails`, `chainsFrom_execute`): the fault of the word that is
  reached comes out as the chain, and every fault has come that way.
- **Runs** (`run_fails_with_call_chain`).
-/

namespace Wordstack

/-! ## Faults of tokens -/

/-- A run that begins with `i` and `s` comes to a token of its source, in the state `k` and `u`. -/
inductive Task.ComesTo (e : Nested) (source : String) (origin : Location) (i : Interp) (s : Store)
    (tk : Token) : Interp → Store → Prop
  | intro {i₀ k : Interp} {s₀ u : Store} {before after : List Token} {stop : Except Fault Token}
      (hb : Task.Begins e i s i₀ s₀)
      (hscans : (Scanner.start source origin).Scans (before ++ tk :: after) stop)
      (hread : (Task.readTokens e before).finish (i₀.beginRun (Scanner.start source origin).input)
        s₀ = .ended (.ok ()) k u) :
      ComesTo e source origin i s tk k u

/-- The run comes to a token that stands for a word, and executes it in the state `k` and `u`. -/
inductive Task.Executes (e : Nested) (source : String) (origin : Location) (i : Interp) (s : Store)
    (tk : Token) (w : Word) : Interp → Store → Prop
  | intro {k : Interp} {u : Store} (hcomes : Task.ComesTo e source origin i s tk k u)
      (hc : k.compiling = false) (hw : tk.word? k u = some w) :
      Executes e source origin i s tk w (k.dispatching w (some tk.location)) u

/-- Reading stops at a token that fails, once the tokens before it have been handled. -/
theorem finish_runTokens_stops {e : Nested} {sc : Scanner} {before after : List Token} {tk : Token}
    {stop : Except Fault Token} (h : sc.Scans (before ++ tk :: after) stop) {bound : Nat}
    (hb : sc.rest.length < bound) {i j k : Interp} {s t u : Store} {f : Fault}
    (hread : (Task.readTokens e before).finish i s = .ended (.ok ()) k u)
    (hf : (handleToken e tk).finish k u = .ended (.fault f) j t) :
    ∃ sc', (runTokens e bound sc).finish i s = .ended (.ok (some (f, sc'))) j t := by
  induction before generalizing sc i s bound with
  | nil =>
    obtain ⟨bound, rfl⟩ := Nat.exists_eq_add_one_of_ne_zero (Nat.ne_zero_of_lt hb)
    cases hread
    cases h with
    | @next _ sc' _ _ _ hn _ _ =>
      refine ⟨sc', ?_⟩
      rw [finish_runTokens_next hn, hf]
      rfl
  | cons t ts ih =>
    rw [List.cons_append] at h
    cases h with
    | next hn hk tail =>
      obtain ⟨bound, rfl⟩ := Nat.exists_eq_add_one_of_ne_zero (Nat.ne_zero_of_lt hb)
      have hlt := Scanner.rest_lt hn hk
      rw [finish_readTokens_cons] at hread
      obtain ⟨_, i₁, s₁, hfirst, hrest⟩ := Outcome.of_bind_ok hread
      rw [finish_readToken] at hfirst
      obtain ⟨_, i₂, s₂, hhandled, hmoved⟩ := Outcome.of_bind_ok hfirst
      cases hmoved
      obtain ⟨sc', hstops⟩ := ih tail (show _ < bound by omega) hrest
      refine ⟨sc', ?_⟩
      rw [finish_runTokens_next hn, hhandled, Outcome.attempt_ok, Outcome.bind_ok, finishToken,
        if_neg hk]
      exact hstops

section Faults

variable {e : Nested} {source : String} {origin : Location} {i j k : Interp} {s t u : Store}
  {tk : Token} {w : Word} {f : Fault}

/-- Reading the source of a run stops at a token that fails. -/
theorem Task.ComesTo.stops (h : Task.ComesTo e source origin i s tk k u)
    (hf : (handleToken e tk).finish k u = .ended (.fault f) j t) : ∃ i₀ s₀ sc',
    Task.Begins e i s i₀ s₀ ∧
    (runAllTokens e (Scanner.start source origin)).finish
        (i₀.beginRun (Scanner.start source origin).input) s₀ =
      .ended (.ok (some (f, sc'))) j t := by
  cases h with
  | @intro i₀ _ s₀ _ _ _ _ hb hscans hread =>
    obtain ⟨sc', hstops⟩ := finish_runTokens_stops hscans (Nat.lt_succ_self _) hread hf
    exact ⟨i₀, s₀, sc', hb, hstops⟩

/-- A run without a handler ends with the fault of the token that fails. -/
theorem Task.ComesTo.fails {depth : Nat} (h : Task.ComesTo (nested depth) source origin i s tk k u)
    (hf : (handleToken (nested depth) tk).finish k u = .ended (.fault f) j t)
    (hi : i.recovery = none) :
    ∃ l, (runSource (nested depth) source origin).finish i s = .ended (.fault f) l t := by
  obtain ⟨i₀, s₀, sc', hb, hstops⟩ := h.stops hf
  have hi₀ : (i₀.beginRun (Scanner.start source origin).input).recovery = none :=
    hb.keeps (Interp.recovery_invariant 0) hi
  refine ⟨j.failRun i₀.transient, ?_⟩
  rw [hb.finish_runSource, Task.finish_ownRun, finish_runScanner hi₀, hstops]
  rfl

/-- A token whose word fails fails. -/
theorem Task.Executes.comes (h : Task.Executes e source origin i s tk w k u)
    (hf : (execute e w).finish k u = .ended (.fault f) j t) :
    ∃ k₀, Task.ComesTo e source origin i s tk k₀ u ∧
      (handleToken e tk).finish k₀ u = .ended (.fault f) j t := by
  cases h with
  | @intro k₀ _ hcomes hc hw =>
    refine ⟨k₀, hcomes, ?_⟩
    rw [finish_handleToken_of_word? hw, finish_handleWord_idle hc, finish_dispatch, hf]

end Faults

/-! ## Active calls -/

/-- A definition that is being executed. -/
structure ActiveCall where
  name : String
  /-- Where the definition was called. -/
  call : Option Location
  /-- Where the entry of its body is that is being executed. -/
  entry : Location
deriving DecidableEq

/-- The outermost definition was called from a place, and each further one by the entry that the
definition around it is executing. -/
def Linked (call : Option Location) : List ActiveCall → Prop
  | [] => True
  | c :: cs => c.call = call ∧ Linked (some c.entry) cs

/-- A fault that has passed through definitions, the outermost one first. -/
def Fault.through (f : Fault) : List ActiveCall → Fault
  | [] => f
  | c :: cs =>
    .wordExecution ("Error executing " ++ c.name) (some (f.through cs)) c.call (some c.entry)

namespace Fault

theorem root_through (f : Fault) (cs : List ActiveCall) : (f.through cs).root = f.root := by
  induction cs with
  | nil => rfl
  | cons c cs ih =>
    show (f.through cs).root = f.root
    exact ih

theorem isStop_through {f : Fault} (hf : f.isStop = false) (cs : List ActiveCall) :
    (f.through cs).isStop = false := by
  cases cs with
  | nil => exact hf
  | cons c cs => rfl

end Fault

/-! ## Ways to calls -/

/-- The execution of a word comes to the execution of another one. The list has the definitions that
are active then, the outermost first; memo words on the way that run their word are none. -/
inductive Reaches (e : Nested) :
    Word → Interp → Store → List ActiveCall → Word → Interp → Store → Prop
  | here {w : Word} {i : Interp} {s : Store} : Reaches e w i s [] w i s
  | entry {label : WordLabel} (before : List (Word × Location)) {after : List (Word × Location)}
      {w w' : Word} {l : Location} {i j k : Interp} {s t u : Store} {cs : List ActiveCall}
      (hbefore : (executeBody e label.name i.call before).finish i s = .ended (.ok ()) k u)
      (h : Reaches e w (k.dispatching w (some l)) u cs w' j t) :
      Reaches e (.definition label (before ++ (w, l) :: after)) i s
        (⟨label.name, i.call, l⟩ :: cs) w' j t
  | memo (use : MemoUse) {label : WordLabel} {cell : Nat} {w w' : Word} {i j : Interp} {s t : Store}
      {cs : List ActiveCall} (hfresh : use.IsFresh (s.memo cell))
      (hidle : (s.memo cell).current = none) (h : Reaches e w i (s.beginMemo cell) cs w' j t) :
      Reaches e (use.word label cell w) i s cs w' j t

section

variable {e : Nested} {i j k : Interp} {s t u : Store} {w w' : Word} {cs : List ActiveCall}
  {f g : Fault}

/-- Each definition notes where it is called before it executes an entry, and a memo word dispatches
nothing before its word. -/
theorem Reaches.linked (h : Reaches e w i s cs w' j t) : Linked i.call cs := by
  induction h with
  | here => trivial
  | entry _ _ _ ih => exact ⟨rfl, ih⟩
  | memo _ _ _ _ ih => exact ih

/-! ## Faults on the way back -/

theorem finish_executeBody_append {name : String} {call : Option Location}
    {before rest : List (Word × Location)}
    (h : (executeBody e name call before).finish i s = .ended (.ok ()) k u) :
    (executeBody e name call (before ++ rest)).finish i s =
      (executeBody e name call rest).finish k u := by
  induction before generalizing i s with
  | nil =>
    cases h
    rfl
  | cons entry before ih =>
    obtain ⟨w, l⟩ := entry
    rw [finish_executeBody_cons] at h
    obtain ⟨_, j, t, hx, hrest⟩ | ⟨g, j, t, -, hrest⟩ :=
      Outcome.of_attempt_bind h Result.ok_ne_exhausted
    · rw [List.cons_append, finish_executeBody_cons, hx, Outcome.attempt_ok, Outcome.bind_ok]
      exact ih hrest
    · simp only [finishEntry] at hrest
      split at hrest
      · cases hrest
      · cases hrest

/-- The fault of the word that is reached comes out as the chain of the active calls. -/
theorem Reaches.fails (h : Reaches e w i s cs w' j t) (hstop : f.isStop = false)
    (hf : (execute e w').finish j t = .ended (.fault f) k u) :
    ∃ k u, (execute e w).finish i s = .ended (.fault (f.through cs)) k u := by
  induction h with
  | here => exact ⟨k, u, hf⟩
  | @entry label before after w _ l i _ _ _ _ _ cs hbefore _ ih =>
    obtain ⟨k, u, hx⟩ := ih hf
    refine ⟨k, u, ?_⟩
    rw [finish_execute_definition, finish_executeBody_append hbefore, finish_executeBody_cons,
      finish_dispatch, hx]
    have hgo : (f.through cs).isStop = false := Fault.isStop_through hstop _
    simp only [Outcome.attempt, Outcome.bind, finishEntry, hgo]
    rfl
  | memo use hfresh hidle _ ih =>
    obtain ⟨k, u, hx⟩ := ih hf
    exact ⟨k, _, finish_memoUse_fault hfresh hidle hx⟩

/-- The fault of the word is its own: it is no definition, and if it is a memo word that runs the word
behind it, that one does not fail. -/
def Word.FailsItself (e : Nested) (i : Interp) (s : Store) : Word → Prop
  | .definition .. => False
  | .memo _ cell w | .memoRefresh _ cell w | .memoReload _ cell w =>
    (s.memo cell).current = none →
      ∀ f j t, (execute e w).finish i (s.beginMemo cell) ≠ .ended (.fault f) j t
  | _ => True

/-- A fault of a word is that of an innermost call, as the chain of the calls that are active. -/
def ChainsFrom (e : Nested) (w : Word) (i : Interp) (s : Store) (f : Fault) : Prop :=
  ∃ cs w' j t g k u, Reaches e w i s cs w' j t ∧ w'.FailsItself e j t ∧
    (execute e w').finish j t = .ended (.fault g) k u ∧ g.isStop = false ∧ f = g.through cs

theorem ChainsFrom.here (hf : (execute e w).finish i s = .ended (.fault f) j t)
    (hstop : f.isStop = false) (hown : w.FailsItself e i s) : ChainsFrom e w i s f :=
  ⟨[], w, i, s, f, j, t, .here, hown, hf, hstop, rfl⟩

theorem ChainsFrom.entry {label : WordLabel} {before after : List (Word × Location)} {l : Location}
    (hbefore : (executeBody e label.name i.call before).finish i s = .ended (.ok ()) k u)
    (h : ChainsFrom e w (k.dispatching w (some l)) u f) :
    ChainsFrom e (.definition label (before ++ (w, l) :: after)) i s
      (.wordExecution ("Error executing " ++ label.name) (some f) i.call (some l)) := by
  obtain ⟨cs, w', j, t, g, k, u, hreaches, hown, hg, hstop, rfl⟩ := h
  exact ⟨_, w', j, t, g, k, u, .entry before hbefore hreaches, hown, hg, hstop, rfl⟩

/-- A memo word fails as the word behind it does, or itself. -/
theorem ChainsFrom.memo (use : MemoUse) {label : WordLabel} {cell : Nat}
    (h : (execute e (use.word label cell w)).finish i s = .ended (.fault f) j t)
    (hstop : f.isStop = false)
    (ih : ∀ j t, (execute e w).finish i (s.beginMemo cell) = .ended (.fault f) j t →
      ChainsFrom e w i (s.beginMemo cell) f) : ChainsFrom e (use.word label cell w) i s f := by
  by_cases hown : (use.word label cell w).FailsItself e i s
  · exact .here h hstop hown
  have hbody : (s.memo cell).current = none ∧
      ∃ g j t, (execute e w).finish i (s.beginMemo cell) = .ended (.fault g) j t := by
    cases use <;> simpa [MemoUse.word, Word.FailsItself] using hown
  obtain ⟨hidle, g, j', t', hg⟩ := hbody
  obtain ⟨v, rfl, hv⟩ | hfresh := use.cached_or_isFresh (s.memo cell)
  · rw [finish_memoUse_cached hv] at h
    cases h
  · rw [finish_memoUse_fault hfresh hidle hg] at h
    cases h
    obtain ⟨cs, w', j, t, g, k, u, hreaches, hrest⟩ := ih _ _ hg
    exact ⟨cs, w', j, t, g, k, u, .memo use hfresh hidle hreaches, hrest⟩

mutual
/-- Every fault of a word but a stop is that of an innermost call. -/
theorem chainsFrom_execute (w : Word) {i j : Interp} {s t : Store} {f : Fault}
    (h : (execute e w).finish i s = .ended (.fault f) j t) (hstop : f.isStop = false) :
    ChainsFrom e w i s f := by
  cases w with
  | definition label body =>
    rw [finish_execute_definition] at h
    exact chainsFrom_entries label [] body rfl h hstop
  | memo label cell w =>
    exact .memo .value h hstop fun _ _ hw => chainsFrom_execute w hw hstop
  | memoRefresh label cell w =>
    exact .memo .refresh h hstop fun _ _ hw => chainsFrom_execute w hw hstop
  | memoReload label cell w =>
    exact .memo .reload h hstop fun _ _ hw => chainsFrom_execute w hw hstop
  | _ => exact .here h hstop trivial

/-- The same of a definition, some of whose entries have been executed. -/
theorem chainsFrom_entries (label : WordLabel) (before rest : List (Word × Location))
    {i j k : Interp} {s t u : Store} {f : Fault}
    (hbefore : (executeBody e label.name i.call before).finish i s = .ended (.ok ()) k u)
    (h : (executeBody e label.name i.call rest).finish k u = .ended (.fault f) j t)
    (hstop : f.isStop = false) : ChainsFrom e (.definition label (before ++ rest)) i s f := by
  cases rest with
  | nil => cases h
  | cons entry rest =>
    rw [show entry :: rest = (entry.1, entry.2) :: rest from rfl, finish_executeBody_cons] at h
    obtain ⟨_, k', u', hx, hrest⟩ | ⟨g, k', u', hx, hend⟩ :=
      Outcome.of_attempt_bind h Result.fault_ne_exhausted
    · have hmore : (executeBody e label.name i.call (before ++ [entry])).finish i s =
          .ended (.ok ()) k' u' := by
        rw [finish_executeBody_append hbefore, show [entry] = [(entry.1, entry.2)] from rfl,
          finish_executeBody_cons, hx]
        rfl
      rw [List.append_cons]
      exact chainsFrom_entries label (before ++ [entry]) rest hmore hrest hstop
    · simp only [finishEntry] at hend
      split at hend
      · rename_i hg
        cases hend
        rw [hstop] at hg
        cases hg
      · rename_i hg
        cases hend
        rw [finish_dispatch] at hx
        exact .entry hbefore (chainsFrom_execute entry.1 hx (by simpa using hg))
end

end

/-! ## Runs -/

/-- The chain of faults is the chain of calls. A run comes to a token whose word comes to another one,
through definitions that call one another, and that word fails, not with a stop. Then reading stops
with the chain of the active definitions around its fault, and the run ends with it if there is no
handler. The outermost definition was called by the token, and each further one by the entry at which
the one around it failed. The root of the chain is that of the fault. -/
theorem run_fails_with_call_chain {depth : Nat} {source : String} {origin : Location}
    {i j k l : Interp} {s t u v : Store} {tk : Token} {w w' : Word} {cs : List ActiveCall}
    {f : Fault} (hrun : Task.Executes (nested depth) source origin i s tk w k u)
    (hreaches : Reaches (nested depth) w k u cs w' j t)
    (hf : (execute (nested depth) w').finish j t = .ended (.fault f) l v)
    (hstop : f.isStop = false) :
    Linked (some tk.location) cs ∧ (f.through cs).root = f.root ∧
      ∃ i₀ s₀ sc l v, Task.Begins (nested depth) i s i₀ s₀ ∧
        (runAllTokens (nested depth) (Scanner.start source origin)).finish
            (i₀.beginRun (Scanner.start source origin).input) s₀ =
          .ended (.ok (some (f.through cs, sc))) l v ∧
        (i.recovery = none → ∃ l, (runSource (nested depth) source origin).finish i s =
          .ended (.fault (f.through cs)) l v) := by
  have hlinked : Linked (some tk.location) cs := by
    have h := hreaches.linked
    cases hrun
    exact h
  obtain ⟨l, v, hw⟩ := hreaches.fails hstop hf
  obtain ⟨k₀, hcomes, htoken⟩ := hrun.comes hw
  obtain ⟨i₀, s₀, sc, hb, hstops⟩ := hcomes.stops htoken
  exact ⟨hlinked, f.root_through cs, i₀, s₀, sc, l, v, hb, hstops, hcomes.fails htoken⟩

/-- A place in a source of one line. -/
def Location.atColumn (column : Int) : Location := { Location.origin with column }

namespace Word

/-- A word that drops a value. -/
def drop : Word := .direct { name := "DROP" } false (.ask .pop fun _ => .done ()) []

/-- The definition `: A DROP ;`. -/
def callingDrop : Word := .definition { name := "A" } [(drop, .atColumn 5)]

/-- The definition `: B 1 DROP A ;`. -/
def callingTwice : Word :=
  .definition { name := "B" }
    [(.constant { name := "1" } (.int 1), .atColumn 17), (drop, .atColumn 19),
     (callingDrop, .atColumn 24)]

/-- The memo word of `@: C B ;`. -/
def callingOnce : Word :=
  .memo { name := "C" } 0 (.definition { name := "C" } [(callingTwice, .atColumn 33)])

/-- The definition `: D C ;`. -/
def callingMemo : Word := .definition { name := "D" } [(callingOnce, .atColumn 41)]

end Word

/-- A store with a word that calls definitions and a memo word. -/
def Store.calling : Store := { Store.holding [.callingMemo] with memos := #[{}] }

/-- The calls that are active when the innermost of these words fails. -/
def nestedCalls : List ActiveCall :=
  [⟨"D", some ⟨none, 1, 1, 0, 1⟩, .atColumn 41⟩, ⟨"C", some (.atColumn 41), .atColumn 33⟩,
   ⟨"B", some (.atColumn 33), .atColumn 24⟩, ⟨"A", some (.atColumn 24), .atColumn 5⟩]

theorem run_fails_with_call_chain_nested : ∃ (l : Interp) (v : Store),
    Linked (some ⟨none, 1, 1, 0, 1⟩) nestedCalls ∧
    (runSource (nested 0) "D" .origin).finish .readingInts .calling =
      .ended (.fault ((Fault.stackUnderflow "D" (some (.atColumn 5))).through nestedCalls)) l v := by
  have htokens : tokenize "D" .origin = .ok [⟨.word, "D", ⟨none, 1, 1, 0, 1⟩⟩] := by rfl
  obtain ⟨eos, hscans⟩ := tokenize_eq_ok_iff.mp htokens
  have hcomes : Task.ComesTo (nested 0) "D" .origin .readingInts .calling
      ⟨.word, "D", ⟨none, 1, 1, 0, 1⟩⟩ (Interp.readingInts.beginRun "D") .calling :=
    .intro (.outermost rfl rfl) (List.nil_append [_] ▸ hscans) rfl
  have hrun := Task.Executes.intro hcomes rfl (show _ = some Word.callingMemo from rfl)
  obtain ⟨j, t, l, v, hreaches, hf⟩ : ∃ j t l v, Reaches (nested 0) Word.callingMemo
      ((Interp.readingInts.beginRun "D").dispatching .callingMemo (some ⟨none, 1, 1, 0, 1⟩)) .calling
      nestedCalls Word.drop j t ∧ (execute (nested 0) .drop).finish j t =
        .ended (.fault (.stackUnderflow "D" (some (.atColumn 5)))) l v := by
    exact ⟨_, _, _, _, .entry [] rfl (.memo .value (fun _ => rfl) rfl (.entry [] rfl
      (.entry [_, _] rfl (.entry [] rfl .here)))), rfl⟩
  obtain ⟨hlinked, -, i₀, s₀, sc, l, v, -, -, hfails⟩ :=
    run_fails_with_call_chain hrun hreaches hf rfl
  obtain ⟨l, hfails⟩ := hfails rfl
  exact ⟨l, v, hlinked, hfails⟩

end Wordstack
