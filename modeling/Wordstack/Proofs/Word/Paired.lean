import Wordstack.Module.Lookup
import Wordstack.Proofs.Word.Blind

/-!
# Words and modules with other identities

- **Words** (`Word.Paired`) and **modules** (`Module.Paired`): the same but for identities, with the
  same code behind them, which is uniform.
- **Looking words up** (`findIn?_paired`): where modules are the same but for identities, so is what
  stands for a name.
- **Stateless words** (`Word.Stateless`): words that hold no variable and no memo, and no code that
  depends on more than it is given. They are paired with themselves (`Word.Stateless.paired`).
-/

namespace Wordstack

variable {P : Pairing}

/-! ## Words -/

/-- Labels that are the same but for the identity. -/
structure WordLabel.Paired (P : Pairing) (l l' : WordLabel) : Prop where
  name : l.name = l'.name
  id : Option.Rel P.id l.id l'.id
  home : l.home = l'.home
  effect : l.effect = l'.effect
  description : l.description = l'.description
  location : l.location = l'.location

/-- Words in one place that are in a relation. -/
inductive Placed (R : Word → Word → Prop) : Word × Location → Word × Location → Prop
  | mk {v w : Word} (h : R v w) (l : Location) : Placed R (v, l) (w, l)

/-- Words that are the same but for identities. Words of other runtimes are not among them. -/
inductive Word.Paired (P : Pairing) : Word → Word → Prop
  | constant {l l' : WordLabel} {v w : Val} (hl : l.Paired P l') (hv : v.Paired P w) :
    Paired P (.constant l v) (.constant l' w)
  | definition {l l' : WordLabel} {body body' : List (Word × Location)} (hl : l.Paired P l')
      (hb : List.Forall₂ (Placed (Paired P)) body body') :
    Paired P (.definition l body) (.definition l' body')
  | native {l l' : WordLabel} (hl : l.Paired P l') (inputs : Nat) (takesOptions waits : Bool)
      {code : List Val → Options → Native (Option Val)} {handlers : List Handler}
      (hcode : Native.UniformOn code) (hh : ∀ h ∈ handlers, h.Uniform) :
    Paired P (.native l inputs takesOptions waits code handlers)
      (.native l' inputs takesOptions waits code handlers)
  | direct {l l' : WordLabel} (hl : l.Paired P l') (waits : Bool) {code : Native Unit}
      {handlers : List Handler} (hcode : code.Uniform) (hh : ∀ h ∈ handlers, h.Uniform) :
    Paired P (.direct l waits code handlers) (.direct l' waits code handlers)
  | memo {l l' : WordLabel} {c d : Nat} {v w : Word} (hl : l.Paired P l') (hc : P.memo c d)
      (hw : Paired P v w) : Paired P (.memo l c v) (.memo l' d w)
  | memoRefresh {l l' : WordLabel} {c d : Nat} {v w : Word} (hl : l.Paired P l')
      (hc : P.memo c d) (hw : Paired P v w) : Paired P (.memoRefresh l c v) (.memoRefresh l' d w)
  | memoReload {l l' : WordLabel} {c d : Nat} {v w : Word} (hl : l.Paired P l')
      (hc : P.memo c d) (hw : Paired P v w) : Paired P (.memoReload l c v) (.memoReload l' d w)
  | openArray : Paired P .openArray .openArray
  | closeArray : Paired P .closeArray .closeArray
  | openModule (name : String) : Paired P (.openModule name) (.openModule name)
  | closeModule : Paired P .closeModule .closeModule

/-- Bodies of definitions whose words are the same but for identities. -/
abbrev Word.BodyPaired (P : Pairing) : List (Word × Location) → List (Word × Location) → Prop :=
  List.Forall₂ (Placed (Word.Paired P))

/-- A label without an identity. -/
theorem WordLabel.paired_of_none {l : WordLabel} (h : l.id = none) : l.Paired P l :=
  ⟨rfl, by rw [h]; exact .none, rfl, rfl, rfl, rfl⟩

namespace Word.Paired

variable {v w : Word}

theorem label (h : v.Paired P w) : v.label.Paired P w.label := by
  cases h with
  | constant hl | definition hl | native hl | direct hl | memo hl | memoRefresh hl
  | memoReload hl => exact hl
  | openArray | closeArray | openModule | closeModule => exact WordLabel.paired_of_none rfl

theorem name_eq (h : v.Paired P w) : v.name = w.name := h.label.name

theorem isProfiled_eq (h : v.Paired P w) : v.isProfiled = w.isProfiled := by cases h <;> rfl

theorem qualifiedName_eq (h : v.Paired P w) : v.qualifiedName = w.qualifiedName := by
  unfold qualifiedName
  rw [h.label.home, h.name_eq]

theorem relabel (h : v.Paired P w) {f g : WordLabel → WordLabel}
    (hf : ∀ {l l' : WordLabel}, l.Paired P l' → (f l).Paired P (g l')) :
    (v.relabel f).Paired P (w.relabel g) := by
  cases h with
  | constant hl hv => exact .constant (hf hl) hv
  | definition hl hb => exact .definition (hf hl) hb
  | native hl inputs takesOptions waits hcode hh =>
    exact .native (hf hl) inputs takesOptions waits hcode hh
  | direct hl waits hcode hh => exact .direct (hf hl) waits hcode hh
  | memo hl hc hw => exact .memo (hf hl) hc hw
  | memoRefresh hl hc hw => exact .memoRefresh (hf hl) hc hw
  | memoReload hl hc hw => exact .memoReload (hf hl) hc hw
  | openArray => exact .openArray
  | closeArray => exact .closeArray
  | openModule name => exact .openModule name
  | closeModule => exact .closeModule

end Word.Paired

/-! ## Modules -/

/-- Imports that are the same but for the identity of the module. -/
structure Import.Paired (P : Pairing) (i j : Import) : Prop where
  module : P.module i.module j.module
  qualifier : i.qualifier = j.qualifier

/-- Modules that are the same but for identities. -/
structure Module.Paired (P : Pairing) (m n : Module) : Prop where
  name : m.name = n.name
  description : m.description = n.description
  runtimeSpecific : m.runtimeSpecific = n.runtimeSpecific
  words : List.Forall₂ (Word.Paired P) m.words n.words
  exports : m.exports = n.exports
  cells : List.Forall₂ (Named P.cell) m.cells n.cells
  imports : List.Forall₂ (Import.Paired P) m.imports n.imports

/-- Stored modules whose identities stand for each other are the same but for identities. -/
def ModulesPaired (P : Pairing) (modules modules' : Array Module) : Prop :=
  ∀ m m', P.module m m' → Option.Rel (Module.Paired P) modules[m]? modules'[m']?

section Lists

variable {α β γ δ : Type} {R : α → β → Prop} {S : γ → δ → Prop} {xs : List α} {ys : List β}

theorem find?_paired (h : List.Forall₂ R xs ys) {p : α → Bool} {q : β → Bool}
    (hpq : ∀ x y, R x y → p x = q y) : Option.Rel R (xs.find? p) (ys.find? q) := by
  induction h with
  | nil => exact .none
  | cons hxy _ ih =>
    rw [List.find?_cons, List.find?_cons, hpq _ _ hxy]
    split
    · exact .some hxy
    · exact ih

theorem findSome?_paired (h : List.Forall₂ R xs ys) {f : α → Option γ} {g : β → Option δ}
    (hfg : ∀ x y, R x y → Option.Rel S (f x) (g y)) :
    Option.Rel S (xs.findSome? f) (ys.findSome? g) := by
  induction h with
  | nil => exact .none
  | @cons x y xs ys hxy _ ih =>
    rw [List.findSome?_cons, List.findSome?_cons]
    have hxy := hfg x y hxy
    cases hf : f x with
    | none =>
      rw [hf] at hxy
      generalize g y = b at hxy
      cases hxy
      exact ih
    | some c =>
      rw [hf] at hxy
      generalize g y = b at hxy
      cases hxy with
      | some hcd => exact .some hcd

theorem or_paired {a c : Option α} {b d : Option β} (h : Option.Rel R a b)
    (h' : Option.Rel R c d) : Option.Rel R (a.or c) (b.or d) := by
  cases h with
  | none => exact h'
  | some h => exact .some h

end Lists

namespace Module.Paired

variable {m n : Module}

theorem ownWord? (h : m.Paired P n) (name : String) :
    Option.Rel (Word.Paired P) (m.ownWord? name) (n.ownWord? name) :=
  find?_paired (List.rel_reverse h.words) fun _ _ hw => by rw [hw.name_eq]

theorem cell? (h : m.Paired P n) (name : String) :
    Option.Rel P.cell (m.cell? name) (n.cell? name) :=
  Named.lookup h.cells name

theorem addWord (h : m.Paired P n) {a b : Nat} (hid : P.id a b) {v w : Word}
    (hw : v.Paired P w) : (m.addWord a v).Paired P (n.addWord b w) :=
  { h with
    words := List.rel_append h.words (.cons (hw.relabel fun hl =>
      ⟨hl.name, .some hid, congrArg some h.name, hl.effect, hl.description, hl.location⟩) .nil) }

theorem addExports (h : m.Paired P n) (names : List String) :
    (m.addExports names).Paired P (n.addExports names) :=
  { h with exports := by rw [Module.addExports, Module.addExports, h.exports] }

theorem addImport (h : m.Paired P n) {i j : Import} (hij : i.Paired P j) :
    (m.addImport i).Paired P (n.addImport j) :=
  { h with imports := List.rel_append h.imports (.cons hij .nil) }

theorem addVariable (h : m.Paired P n) (name : String) {c d : Nat} (hcd : P.cell c d) :
    (m.addVariable name c).Paired P (n.addVariable name d) :=
  { h with cells := List.rel_append h.cells (.cons (.mk name hcd) .nil) }

end Module.Paired

/-! ## Looking words up -/

section Lookup

variable {modules modules' : Array Module}

/-- What is kept under an index is there on both sides, or on none. -/
theorem ModulesPaired.cases (h : ModulesPaired P modules modules') {i j : Nat}
    (hij : P.module i j) :
    (¬ i < modules.size ∧ ¬ j < modules'.size) ∨
      ∃ (hi : i < modules.size) (hj : j < modules'.size), modules[i].Paired P modules'[j] := by
  have hmodule := h i j hij
  by_cases hi : i < modules.size
  · rw [Array.getElem?_eq_getElem hi] at hmodule
    by_cases hj : j < modules'.size
    · rw [Array.getElem?_eq_getElem hj] at hmodule
      cases hmodule with
      | some hmodule => exact .inr ⟨hi, hj, hmodule⟩
    · rw [Array.getElem?_eq_none (Nat.not_lt.mp hj)] at hmodule
      cases hmodule
  · rw [Array.getElem?_eq_none (Nat.not_lt.mp hi)] at hmodule
    by_cases hj : j < modules'.size
    · rw [Array.getElem?_eq_getElem hj] at hmodule
      cases hmodule
    · exact .inl ⟨hi, hj⟩

/-- An import is followed to the same word but for identities, if modules are. -/
theorem Import.Paired.follow {imp imp' : Import} (h : imp.Paired P imp') {name : String}
    {f g : Nat → String → Option Word}
    (hfg : ∀ {m m'}, P.module m m' → ∀ target,
      Option.Rel (Word.Paired P) (f m target) (g m' target)) :
    Option.Rel (Word.Paired P)
      (match imp.target? name with
        | some target => f imp.module target
        | none => none)
      (match imp'.target? name with
        | some target => g imp'.module target
        | none => none) := by
  have ht : imp.target? name = imp'.target? name := by
    rw [Import.target?, Import.target?, h.qualifier]
  rw [ht]
  cases imp'.target? name with
  | none => exact .none
  | some target => exact hfg h.module target

theorem exportedWord?_paired (h : ModulesPaired P modules modules') {path path' : List Nat}
    (hpath : List.Forall₂ P.module path path') {i j : Nat} (hij : P.module i j) (name : String) :
    Option.Rel (Word.Paired P) (exportedWord? modules path i name)
      (exportedWord? modules' path' j name) := by
  have hbarred : path.contains i = path'.contains j := by
    rw [Bool.eq_iff_iff, List.contains_iff_mem, List.contains_iff_mem]
    exact List.rel_mem P.module_unique hij hpath
  obtain ⟨hi, hj⟩ | ⟨hi, hj, hmodule⟩ := h.cases hij
  · rw [exportedWord?, exportedWord?, dif_neg hi, dif_neg hj]
    exact .none
  · by_cases hp : path.contains i = false
    · rw [exportedWord?, exportedWord?, dif_pos hi, dif_pos hj, dif_pos hp,
        dif_pos (hbarred ▸ hp)]
      have hexported : modules[i].isExported name = modules'[j].isExported name := by
        rw [Module.isExported, Module.isExported, hmodule.exports]
      simp only [hexported]
      split
      · refine or_paired (hmodule.ownWord? name) ?_
        refine findSome?_paired (List.rel_reverse hmodule.imports) fun imp imp' himp => ?_
        exact himp.follow fun hm target =>
          exportedWord?_paired h (.cons hij hpath) hm target
      · exact .none
    · rw [exportedWord?, exportedWord?, dif_pos hi, dif_pos hj, dif_neg hp,
        dif_neg (hbarred ▸ hp)]
      exact .none
termination_by unvisited modules path
decreasing_by exact unvisited_lt hi hp

theorem exportedWords_paired (h : ModulesPaired P modules modules') {i j : Nat}
    (hij : P.module i j) :
    List.Forall₂ (Word.Paired P) (exportedWords modules i) (exportedWords modules' j) := by
  have hmodule := h i j hij
  unfold exportedWords
  generalize modules[i]? = a, modules'[j]? = b at hmodule
  cases hmodule with
  | none => exact .nil
  | some hmodule =>
    dsimp only
    rw [hmodule.exports]
    refine List.rel_filterMap (R := Eq) (fun name _ e => e ▸ ?_) (List.forall₂_refl _)
    exact exportedWord?_paired h .nil hij name

/-- What stands for a name is the same but for identities. -/
theorem findIn?_paired (h : ModulesPaired P modules modules') {i j : Nat} (hij : P.module i j)
    (name : String) :
    Option.Rel (Word.Paired P) (findIn? modules i name) (findIn? modules' j name) := by
  have hmodule := h i j hij
  unfold findIn?
  generalize modules[i]? = a, modules'[j]? = b at hmodule
  cases hmodule with
  | none => exact .none
  | @some m n hmodule =>
    have hown := hmodule.ownWord? name
    have hcell := hmodule.cell? name
    dsimp only
    generalize m.ownWord? name = a, n.ownWord? name = b at hown
    cases hown with
    | some hw => exact .some hw
    | none =>
      generalize m.cell? name = a, n.cell? name = b at hcell
      cases hcell with
      | some hcell => exact .some (.constant (WordLabel.paired_of_none rfl) (.variableRef name hcell))
      | none =>
        refine findSome?_paired (List.rel_reverse hmodule.imports) fun imp imp' himp => ?_
        exact himp.follow fun hm target => exportedWord?_paired h (.cons hij .nil) hm target

end Lookup

/-! ## Stateless words -/

/-- The identity of a word has been given out. -/
def WordLabel.Issued (issued : Nat) (l : WordLabel) : Prop := ∀ id ∈ l.id, id < issued

mutual
/-- A word that holds no variable and no memo, and no code that depends on more than it is given. -/
def Word.Stateless (issued : Nat) : Word → Prop
  | .constant l v => l.Issued issued ∧ v.isSerializable = true
  | .definition l body => l.Issued issued ∧ Word.BodyStateless issued body
  | .native l _ _ _ code handlers =>
    l.Issued issued ∧ Native.UniformOn code ∧ ∀ h ∈ handlers, Handler.Uniform h
  | .direct l _ code handlers =>
    l.Issued issued ∧ Native.Uniform code ∧ ∀ h ∈ handlers, Handler.Uniform h
  | .openArray | .closeArray | .openModule _ | .closeModule => True
  | .memo .. | .memoRefresh .. | .memoReload .. | .remote .. => False

/-- `Word.Stateless` of every entry. -/
def Word.BodyStateless (issued : Nat) : List (Word × Location) → Prop
  | [] => True
  | (w, _) :: rest => Word.Stateless issued w ∧ Word.BodyStateless issued rest
end

section Stateless

variable {issued : Nat}

theorem WordLabel.Issued.paired {l : WordLabel} (h : l.Issued issued)
    (hid : ∀ id < issued, P.id id id) : l.Paired P l := by
  refine ⟨rfl, ?_, rfl, rfl, rfl, rfl⟩
  cases hl : l.id with
  | none => exact .none
  | some id => exact .some (hid id (h id hl))

theorem WordLabel.Issued.mono {l : WordLabel} {later : Nat} (h : l.Issued issued)
    (hle : issued ≤ later) : l.Issued later :=
  fun id hid => Nat.lt_of_lt_of_le (h id hid) hle

mutual
/-- What has no state is the same for every run in which the identities given out are. -/
theorem Word.Stateless.paired (hid : ∀ id < issued, P.id id id) :
    ∀ {w : Word}, w.Stateless issued → w.Paired P w
  | .constant _ _, h => by
    rw [Word.Stateless] at h
    exact .constant (h.1.paired hid) (.self h.2)
  | .definition _ _, h => by
    rw [Word.Stateless] at h
    exact .definition (h.1.paired hid) (Word.BodyStateless.paired hid h.2)
  | .native .., h => by
    rw [Word.Stateless] at h
    exact .native (h.1.paired hid) _ _ _ h.2.1 h.2.2
  | .direct .., h => by
    rw [Word.Stateless] at h
    exact .direct (h.1.paired hid) _ h.2.1 h.2.2
  | .openArray, _ => .openArray
  | .closeArray, _ => .closeArray
  | .openModule name, _ => .openModule name
  | .closeModule, _ => .closeModule
  | .memo .., h | .memoRefresh .., h | .memoReload .., h | .remote .., h => by
    rw [Word.Stateless] at h
    exact h.elim

@[inherit_doc Word.Stateless.paired]
theorem Word.BodyStateless.paired (hid : ∀ id < issued, P.id id id) :
    ∀ {body : List (Word × Location)}, Word.BodyStateless issued body → Word.BodyPaired P body body
  | [], _ => .nil
  | (_, l) :: _, h => by
    rw [Word.BodyStateless] at h
    exact .cons (.mk (Word.Stateless.paired hid h.1) l) (Word.BodyStateless.paired hid h.2)
end

mutual
/-- Identities that were given out stay given out. -/
theorem Word.Stateless.mono {later : Nat} (hle : issued ≤ later) :
    ∀ {w : Word}, w.Stateless issued → w.Stateless later
  | .constant _ _, h => by
    rw [Word.Stateless] at h ⊢
    exact ⟨h.1.mono hle, h.2⟩
  | .definition _ _, h => by
    rw [Word.Stateless] at h ⊢
    exact ⟨h.1.mono hle, Word.BodyStateless.mono hle h.2⟩
  | .native .., h | .direct .., h => by
    rw [Word.Stateless] at h ⊢
    exact ⟨h.1.mono hle, h.2⟩
  | .openArray, _ | .closeArray, _ | .openModule _, _ | .closeModule, _ => by
    rw [Word.Stateless]
    trivial
  | .memo .., h | .memoRefresh .., h | .memoReload .., h | .remote .., h => by
    rw [Word.Stateless] at h
    exact h.elim

@[inherit_doc Word.Stateless.mono]
theorem Word.BodyStateless.mono {later : Nat} (hle : issued ≤ later) :
    ∀ {body : List (Word × Location)}, Word.BodyStateless issued body →
      Word.BodyStateless later body
  | [], _ => by
    rw [Word.BodyStateless]
    trivial
  | _ :: _, h => by
    rw [Word.BodyStateless] at h ⊢
    exact ⟨Word.Stateless.mono hle h.1, Word.BodyStateless.mono hle h.2⟩
end

end Stateless

end Wordstack
