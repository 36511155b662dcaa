import Mathlib.Logic.Relation
import Mathlib.Tactic.Common
import Wordstack.Machine.Interp
import Wordstack.Source.Scanner

/-!
# Variables as cells

What programs of module blocks and of the four words for variables come to, told without a memory:
a name in a module denotes a cell, and a cell has the value of the latest store to it.

- **States** (`Cells`): the cells that names denote, and all stores so far; `Cells.value` is the
  value of a cell.
- **Denotation** (`Cells.here?`, `Cells.target?`): a text denotes the cell of that name in the
  current module, which is made when it is missing; a reference denotes its cell.
- **Words** (`CellWord`, `Cells.act`) and **names** (`CellWords`, `Cells.word`).
- **Programs** (`Cells.token`, `Cells.run`): no result where the program does anything else.
- **Soundness** (`Cells.Sound`): nothing refers to a cell that has not been made.
- **Steps** (`Cells.Step`): all that programs do (`Cells.Steps.run`). Steps keep soundness
  (`Cells.Steps.sound`) and take nothing back (`Cells.Steps.before`).
- **Laws** (`Cells.Laws`): what holds of the cells of a sound state.
-/

namespace Wordstack

/-! ## States -/

/-- What a word does with cells. -/
inductive CellWord where
  /-- Makes the variables of the given names. -/
  | create
  /-- Stores a value. -/
  | store
  /-- Stores a value and leaves it. -/
  | storeBack
  /-- Leaves the value of a cell. -/
  | fetch
  /-- Does something else. -/
  | other
deriving DecidableEq

/-- What names stand for, but for variables: literals, and the words that each module has itself or
imports. -/
structure CellWords where
  literal : String → Option Val
  own : Nat → String → Option CellWord
  imported : Nat → String → Option CellWord
  literal_isSerializable : ∀ {text v}, literal text = some v → v.isSerializable = true

/-- The state of a program that works on cells. Modules and cells are numbered as they are made. -/
structure Cells where
  /-- The outermost module. -/
  app : Nat
  /-- The modules of the open blocks, innermost first. -/
  scope : List Nat
  /-- The number of modules. -/
  modules : Nat
  /-- The module of the block of a name inside a module. -/
  child? : Nat → String → Option Nat
  /-- The cell that a name denotes in a module. -/
  cell? : Nat → String → Option Nat
  /-- The number of cells. -/
  count : Nat
  /-- All stores, the latest first. -/
  stores : List (Nat × Val)
  stack : OperandStack
  /-- The depths of the stack at the open brackets, innermost first. -/
  marks : List Nat

namespace Cells

/-- The value of a cell: that of the latest store to it, null if there was none. -/
def value (c : Cells) (k : Nat) : Val := (c.stores.lookup k).getD .null

/-- Stores a value in a cell. -/
def put (c : Cells) (k : Nat) (v : Val) : Cells := { c with stores := (k, v) :: c.stores }

/-- Puts a value on the stack. -/
def push (c : Cells) (v : Val) : Cells := { c with stack := c.stack.push v }

/-! ## Denotation -/

/-- A new cell for a name in a module. -/
def addCell (c : Cells) (m : Nat) (name : String) : Cells :=
  { c with
    count := c.count + 1
    cell? := fun n text => if n = m ∧ text = name then some c.count else c.cell? n text }

/-- The cell of a name in a module, which is made when it is missing. -/
def named (c : Cells) (m : Nat) (name : String) : Nat × Cells :=
  match c.cell? m name with
  | some k => (k, c)
  | none => (c.count, c.addCell m name)

/-- The cell of a name in the current module; names that begin with two underscores have none. -/
def here? (c : Cells) (name : String) : Option (Nat × Cells) :=
  if Text.startsWith name "__" then none else c.scope.head?.map fun m => c.named m name

/-- The cell that an operand denotes. -/
def target? (c : Cells) : Val → Option (Nat × Cells)
  | .variableRef r => some (r.id, c)
  | .str name => c.here? name
  | _ => none

/-! ## Words -/

/-- Makes the variables of names in order, up to the first that is none. The second component says
whether all is well. -/
def create (c : Cells) : List Val → Cells × Bool
  | [] => (c, true)
  | .str name :: vs =>
    match c.here? name with
    | some (_, c) => create c vs
    | none => (c, false)
  | _ :: _ => (c, false)

/-- Goes on with the cell that an operand denotes. -/
def onCell (c : Cells) (target : Val) (f : Nat → Cells → Cells) : Cells × Bool :=
  match c.target? target with
  | some (k, c) => (f k c, true)
  | none => (c, false)

/-- Takes names and makes their variables. -/
def creating (c : Cells) : Cells × Bool :=
  match c.stack.values with
  | [] => (c, false)
  | .null :: rest => ({ c with stack := ⟨rest⟩ }, true)
  | .array names :: rest => create { c with stack := ⟨rest⟩ } names
  | _ :: rest => ({ c with stack := ⟨rest⟩ }, false)

/-- Takes a value and what denotes a cell, stores the value there, and may leave it. -/
def storing (c : Cells) (leave : Bool) : Cells × Bool :=
  match c.stack.values with
  | target :: v :: rest =>
    onCell { c with stack := ⟨rest⟩ } target fun k c =>
      if leave then (c.put k v).push v else c.put k v
  | _ => (c, false)

/-- Takes what denotes a cell and leaves its value. -/
def fetching (c : Cells) : Cells × Bool :=
  match c.stack.values with
  | [] => (c, false)
  | target :: rest => onCell { c with stack := ⟨rest⟩ } target fun k c => c.push (c.value k)

/-- What a word comes to. -/
def act (c : Cells) : CellWord → Option (Cells × Bool)
  | .create => some c.creating
  | .store => some (c.storing false)
  | .storeBack => some (c.storing true)
  | .fetch => some c.fetching
  | .other => none

/-- What a name comes to that is no literal: it is looked for in the modules of the blocks, the
innermost first, and in each of them among its own words, its variables and its imports. -/
def find (c : Cells) (W : CellWords) (name : String) : List Nat → Option (Cells × Bool)
  | [] => some (c, false)
  | m :: outer =>
    match W.own m name, c.cell? m name, W.imported m name with
    | some w, _, _ => c.act w
    | none, some k, _ => some (c.push (.variableRef ⟨k, name⟩), true)
    | none, none, some w => c.act w
    | none, none, none => c.find W name outer

/-- What a name comes to. -/
def word (c : Cells) (W : CellWords) (name : String) : Option (Cells × Bool) :=
  match W.literal name with
  | some v => some (c.push v, true)
  | none => c.find W name c.scope

/-! ## Programs -/

/-- Collects the values above the innermost bracket. -/
def closeArray (c : Cells) : Cells × Bool :=
  match c.marks with
  | [] => (c, false)
  | mark :: marks =>
    if c.stack.depth < mark then ({ c with marks }, false)
    else
      let (items, stack) := c.stack.popAbove mark
      ({ c with marks, stack := stack.push (.array items) }, true)

/-- A new module for the block of a name inside a module. -/
def addChild (c : Cells) (m : Nat) (name : String) : Cells :=
  { c with
    modules := c.modules + 1
    child? := fun n text => if n = m ∧ text = name then some c.modules else c.child? n text }

/-- Enters a block: the outermost module for the empty name, otherwise that of the name inside the
current module, which is made when it is missing. -/
def openBlock (c : Cells) (name : String) : Cells × Bool :=
  if name.isEmpty then ({ c with scope := c.app :: c.scope }, true)
  else
    match c.scope with
    | [] => (c, false)
    | m :: _ =>
      match c.child? m name with
      | some child => ({ c with scope := child :: c.scope }, true)
      | none => ({ c.addChild m name with scope := c.modules :: c.scope }, true)

/-- Leaves a block; the outermost module cannot be left. -/
def closeBlock (c : Cells) : Cells × Bool :=
  if c.scope.length ≤ 1 then (c, false) else ({ c with scope := c.scope.tail }, true)

/-- What a token comes to. -/
def token (c : Cells) (W : CellWords) (t : Token) : Option (Cells × Bool) :=
  match t.kind with
  | .str | .dotSymbol => some (c.push (.str t.text), true)
  | .comment | .eos => some (c, true)
  | .startArray => some ({ c with marks := c.stack.depth :: c.marks }, true)
  | .endArray => some c.closeArray
  | .startModule => some (c.openBlock t.text)
  | .endModule => some c.closeBlock
  | .word => c.word W t.text
  | .startDef | .startMemo | .endDef => none

/-- What tokens come to, up to the first that fails. -/
def tokens (c : Cells) (W : CellWords) : List Token → Option (Cells × Bool)
  | [] => some (c, true)
  | t :: ts =>
    match c.token W t with
    | some (c, true) => c.tokens W ts
    | some (c, false) => some (c, false)
    | none => none

/-- The state without the brackets and the blocks that are open now, but were not at the start. -/
def closed (c start : Cells) : Cells :=
  { c with
    marks := Interp.outermost start.marks.length c.marks
    scope := Interp.outermost start.scope.length c.scope }

/-- What a program comes to. It also fails where it cannot be read to its end, and where it leaves a
bracket open. -/
def run (c : Cells) (W : CellWords) (source : Scanner.Tokens) : Option (Cells × Bool) :=
  match c.tokens W source.tokens with
  | some (d, ok) =>
    some (if ok && source.stop.isOk && d.marks.isEmpty then (d, true) else (d.closed c, false))
  | none => none

end Cells

/-! ## Soundness -/

/-- A reference to a variable is one to a cell below this. -/
def Val.RefersBelow (count : Nat) (v : Val) : Prop := ∀ r, v = .variableRef r → r.id < count

namespace Val

variable {count : Nat} {v : Val}

theorem refersBelow_of_isSerializable (h : v.isSerializable = true) : v.RefersBelow count := by
  rintro r rfl
  cases h

theorem RefersBelow.mono {more : Nat} (h : v.RefersBelow count) (hm : count ≤ more) :
    v.RefersBelow more := fun r hr => Nat.lt_of_lt_of_le (h r hr) hm

end Val

/-- Whatever is named, stored to or referred to has been made; different names denote different
cells, and none begins with two underscores. -/
structure Cells.Sound (c : Cells) : Prop where
  app : c.app < c.modules
  scope : ∀ m ∈ c.scope, m < c.modules
  child : ∀ {m name k}, c.child? m name = some k → k < c.modules
  cell : ∀ {m name k}, c.cell? m name = some k → k < c.count
  apart : ∀ {m name n text k}, c.cell? m name = some k → c.cell? n text = some k →
    m = n ∧ name = text
  unreserved : ∀ {m name k}, c.cell? m name = some k → Text.startsWith name "__" = false
  stores : ∀ {k v}, (k, v) ∈ c.stores → k < c.count ∧ v.RefersBelow c.count
  stack : ∀ v ∈ c.stack.values, v.RefersBelow c.count

namespace Cells

variable {c d : Cells} {W : CellWords} {k m : Nat} {v : Val} {name : String}

/-! ## What cells hold -/

theorem value_put_self (c : Cells) (k : Nat) (v : Val) : (c.put k v).value k = v := by
  simp [value, put]

theorem value_put_of_ne (c : Cells) (v : Val) {j : Nat} (h : j ≠ k) :
    (c.put k v).value j = c.value j := by
  simp [value, put, List.lookup_cons, beq_eq_false_iff_ne.mpr h]

theorem lookup_eq_none {stores : List (Nat × Val)} (h : ∀ v, (k, v) ∉ stores) :
    stores.lookup k = none := by
  refine List.lookup_eq_none_iff.mpr fun e he => bne_iff_ne.mpr ?_
  rintro rfl
  exact h e.2 he

/-- Nothing but a store gives a cell a value. -/
theorem value_eq_null (h : ∀ v, (k, v) ∉ c.stores) : c.value k = .null := by
  rw [value, lookup_eq_none h, Option.getD_none]

theorem value_eq_of_latest {newer older : List (Nat × Val)}
    (hs : c.stores = newer ++ (k, v) :: older) (hn : ∀ w, (k, w) ∉ newer) : c.value k = v := by
  rw [value, hs, List.lookup_append, lookup_eq_none hn, Option.none_or, List.lookup_cons_self,
    Option.getD_some]

theorem Sound.value (h : c.Sound) (k : Nat) : (c.value k).RefersBelow c.count := by
  unfold Cells.value
  cases hl : c.stores.lookup k with
  | none => exact Val.refersBelow_of_isSerializable rfl
  | some v =>
    obtain ⟨newer, older, hs, -⟩ := List.lookup_eq_some_iff.mp hl
    exact (h.stores (k := k) (by simp [hs])).2

/-! ## What keeps soundness -/

namespace Sound

theorem onStack (h : c.Sound) {stack : OperandStack}
    (hs : ∀ v ∈ stack.values, v.RefersBelow c.count) : Sound { c with stack } :=
  ⟨h.app, h.scope, h.child, h.cell, h.apart, h.unreserved, h.stores, hs⟩

theorem onMarks (h : c.Sound) (marks : List Nat) : Sound { c with marks } :=
  ⟨h.app, h.scope, h.child, h.cell, h.apart, h.unreserved, h.stores, h.stack⟩

theorem onScope (h : c.Sound) {scope : List Nat} (hs : ∀ m ∈ scope, m < c.modules) :
    Sound { c with scope } :=
  ⟨h.app, hs, h.child, h.cell, h.apart, h.unreserved, h.stores, h.stack⟩

theorem push (h : c.Sound) (hv : v.RefersBelow c.count) : (c.push v).Sound :=
  h.onStack (List.forall_mem_cons.mpr ⟨hv, h.stack⟩)

theorem put (h : c.Sound) (hk : k < c.count) (hv : v.RefersBelow c.count) : (c.put k v).Sound := by
  refine ⟨h.app, h.scope, h.child, h.cell, h.apart, h.unreserved, fun {j w} hj => ?_, h.stack⟩
  obtain he | hj := List.mem_cons.mp hj
  · cases he
    exact ⟨hk, hv⟩
  · exact h.stores hj

/-- A cell is made for a name that denotes none. -/
theorem addCell (h : c.Sound) (m : Nat) (hn : Text.startsWith name "__" = false) :
    (c.addCell m name).Sound := by
  -- all that there was stays in bounds
  have hold : ∀ {n text k}, c.cell? n text = some k → k < c.count + 1 := fun hk =>
    Nat.lt_succ_of_lt (h.cell hk)
  refine ⟨h.app, h.scope, h.child, fun {n text k} hk => ?_, fun {n text n' text' k} hk hk' => ?_,
    fun {n text k} hk => ?_, fun hk => ?_, fun v hv => (h.stack v hv).mono (Nat.le_succ _)⟩
  · dsimp only [Cells.addCell] at hk ⊢
    split at hk
    · cases hk
      exact Nat.lt_succ_self _
    · exact hold hk
  · dsimp only [Cells.addCell] at hk hk'
    split at hk <;> split at hk'
    · rename_i he he'
      exact ⟨he.1.trans he'.1.symm, he.2.trans he'.2.symm⟩
    · cases hk
      exact absurd (h.cell hk') (Nat.lt_irrefl _)
    · cases hk'
      exact absurd (h.cell hk) (Nat.lt_irrefl _)
    · exact h.apart hk hk'
  · dsimp only [Cells.addCell] at hk
    split at hk
    · rename_i he
      exact he.2 ▸ hn
    · exact h.unreserved hk
  · obtain ⟨hlt, hv⟩ := h.stores hk
    exact ⟨Nat.lt_succ_of_lt hlt, hv.mono (Nat.le_succ _)⟩

theorem addChild (h : c.Sound) (m : Nat) (name : String) : (c.addChild m name).Sound := by
  refine ⟨Nat.lt_succ_of_lt h.app, fun m hm => Nat.lt_succ_of_lt (h.scope m hm),
    fun {n text k} hk => ?_, h.cell, h.apart, h.unreserved, h.stores, h.stack⟩
  dsimp only [Cells.addChild] at hk ⊢
  split at hk
  · cases hk
    exact Nat.lt_succ_self _
  · exact Nat.lt_succ_of_lt (h.child hk)

theorem pop {rest : List Val} (h : c.Sound) (hs : c.stack.values = v :: rest) :
    Sound { c with stack := ⟨rest⟩ } ∧ v.RefersBelow c.count := by
  obtain ⟨hv, hrest⟩ := List.forall_mem_cons.mp (hs ▸ h.stack)
  exact ⟨h.onStack hrest, hv⟩

theorem closed (h : c.Sound) (start : Cells) : (c.closed start).Sound :=
  (h.onScope fun m hm => h.scope m (List.mem_of_mem_drop hm)).onMarks _

end Sound

/-! ## Steps -/

/-- What happens at once: cells are made for names that denote none, and stored to. -/
inductive Step : Cells → Cells → Prop
  | stack {c : Cells} {stack : OperandStack} (hv : ∀ v ∈ stack.values, v.RefersBelow c.count) :
      Step c { c with stack }
  | marks {c : Cells} (marks : List Nat) : Step c { c with marks }
  | scope {c : Cells} {scope : List Nat} (hm : ∀ m ∈ scope, m < c.modules) :
      Step c { c with scope }
  | put {c : Cells} {k : Nat} {v : Val} (hk : k < c.count) (hv : v.RefersBelow c.count) :
      Step c (c.put k v)
  | addCell {c : Cells} {m : Nat} {name : String} (hnone : c.cell? m name = none)
      (hn : Text.startsWith name "__" = false) : Step c (c.addCell m name)
  | addChild {c : Cells} {m : Nat} {name : String} (hnone : c.child? m name = none) :
      Step c (c.addChild m name)

/-- Any number of steps. -/
def Steps : Cells → Cells → Prop := Relation.ReflTransGen Step

/-- Nothing is taken back: the stores are still there, behind newer ones, and what a name denotes it
denotes ever after. -/
structure Before (c d : Cells) : Prop where
  count : c.count ≤ d.count
  modules : c.modules ≤ d.modules
  cell : ∀ {m name k}, c.cell? m name = some k → d.cell? m name = some k
  child : ∀ {m name k}, c.child? m name = some k → d.child? m name = some k
  stores : c.stores <:+ d.stores

theorem Before.refl (c : Cells) : c.Before c :=
  ⟨Nat.le_refl _, Nat.le_refl _, id, id, List.suffix_rfl⟩

theorem Before.trans {e : Cells} (h : c.Before d) (h' : d.Before e) : c.Before e :=
  ⟨Nat.le_trans h.count h'.count, Nat.le_trans h.modules h'.modules, fun hk => h'.cell (h.cell hk),
    fun hk => h'.child (h.child hk), h.stores.trans h'.stores⟩

namespace Step

theorem sound (hs : Step c d) (h : c.Sound) : d.Sound := by
  cases hs with
  | stack hv => exact h.onStack hv
  | marks marks => exact h.onMarks marks
  | scope hm => exact h.onScope hm
  | put hk hv => exact h.put hk hv
  | addCell _ hn => exact h.addCell _ hn
  | addChild => exact h.addChild ..

theorem before (hs : Step c d) : c.Before d := by
  have hrefl := Before.refl c
  cases hs with
  | stack | marks | scope => exact ⟨hrefl.count, hrefl.modules, id, id, hrefl.stores⟩
  | put => exact ⟨hrefl.count, hrefl.modules, id, id, List.suffix_cons ..⟩
  | addCell hnone =>
    refine ⟨Nat.le_succ _, hrefl.modules, fun hk => (if_neg ?_).trans hk, id, hrefl.stores⟩
    rintro ⟨rfl, rfl⟩
    exact Option.some_ne_none _ (hk.symm.trans hnone)
  | addChild hnone =>
    refine ⟨hrefl.count, Nat.le_succ _, id, fun hk => (if_neg ?_).trans hk, hrefl.stores⟩
    rintro ⟨rfl, rfl⟩
    exact Option.some_ne_none _ (hk.symm.trans hnone)

end Step

/-! ## What programs do in steps -/

namespace Steps

theorem refl (c : Cells) : Steps c c := Relation.ReflTransGen.refl

theorem of_step (h : Step c d) : Steps c d := Relation.ReflTransGen.single h

theorem trans {e : Cells} (h : Steps c d) (h' : Steps d e) : Steps c e :=
  Relation.ReflTransGen.trans h h'

/-- Soundness is kept. -/
theorem sound (hs : Steps c d) (h : c.Sound) : d.Sound := by
  induction hs with
  | refl => exact h
  | tail _ hstep ih => exact hstep.sound ih

theorem before (hs : Steps c d) : c.Before d := by
  induction hs with
  | refl => exact .refl c
  | tail _ hstep ih => exact ih.trans hstep.before

theorem push (h : c.Sound) (hv : v.RefersBelow c.count) : Steps c (c.push v) :=
  of_step (.stack (List.forall_mem_cons.mpr ⟨hv, h.stack⟩))

theorem pop {rest : List Val} (h : c.Sound) (hs : c.stack.values = v :: rest) :
    Steps c { c with stack := ⟨rest⟩ } :=
  of_step (.stack (h.pop hs).1.stack)

/-- A name denotes a cell that is there then. -/
theorem named (h : c.Sound) (m : Nat) (hn : Text.startsWith name "__" = false) :
    Steps c (c.named m name).2 ∧ (c.named m name).1 < (c.named m name).2.count := by
  unfold Cells.named
  split
  · exact ⟨refl c, h.cell ‹_›⟩
  · exact ⟨of_step (.addCell ‹_› hn), Nat.lt_succ_self _⟩

theorem here (h : c.Sound) (hd : c.here? name = some (k, d)) : Steps c d ∧ k < d.count := by
  unfold here? at hd
  split at hd
  · cases hd
  · rename_i hn
    obtain ⟨m, -, hm⟩ := Option.map_eq_some_iff.mp hd
    rw [show k = (c.named m name).1 from (congrArg Prod.fst hm).symm,
      show d = (c.named m name).2 from (congrArg Prod.snd hm).symm]
    exact named h m (Bool.eq_false_iff.mpr hn)

theorem target (h : c.Sound) (hv : v.RefersBelow c.count) (hd : c.target? v = some (k, d)) :
    Steps c d ∧ k < d.count := by
  unfold target? at hd
  split at hd
  · cases hd
    exact ⟨refl c, hv _ rfl⟩
  · exact here h hd
  · cases hd

theorem create (h : c.Sound) (vs : List Val) : Steps c (c.create vs).1 := by
  induction vs generalizing c with
  | nil => exact refl c
  | cons v vs ih =>
    unfold Cells.create
    split
    · exact refl c
    · rename_i he
      cases he
      split
      · obtain ⟨hd, -⟩ := here h ‹_›
        exact hd.trans (ih (hd.sound h))
      · exact refl c
    · exact refl c

theorem onCell {f : Nat → Cells → Cells} (h : c.Sound) (hv : v.RefersBelow c.count)
    (hf : ∀ k d, d.Sound → k < d.count → c.count ≤ d.count → Steps d (f k d)) :
    Steps c (c.onCell v f).1 := by
  unfold Cells.onCell
  split
  · obtain ⟨hd, hk⟩ := target h hv ‹_›
    exact hd.trans (hf _ _ (hd.sound h) hk hd.before.count)
  · exact refl c

theorem creating (h : c.Sound) : Steps c c.creating.1 := by
  unfold Cells.creating
  split
  · exact refl c
  · exact pop h ‹_›
  · exact (pop h ‹_›).trans (create (h.pop ‹_›).1 _)
  · exact pop h ‹_›

theorem storing (h : c.Sound) (leave : Bool) : Steps c (c.storing leave).1 := by
  unfold Cells.storing
  split
  · obtain ⟨htarget, ht⟩ := h.pop ‹_›
    obtain ⟨hrest, hv⟩ := htarget.pop rfl
    refine ((pop h ‹_›).trans (pop htarget rfl)).trans (onCell hrest ht fun k d hd hk hle => ?_)
    have hput := Step.put hk (hv.mono hle)
    split
    · exact (of_step hput).trans (push (hput.sound hd) (hv.mono hle))
    · exact of_step hput
  · exact refl c

theorem fetching (h : c.Sound) : Steps c c.fetching.1 := by
  unfold Cells.fetching
  split
  · exact refl c
  · obtain ⟨hrest, ht⟩ := h.pop ‹_›
    exact (pop h ‹_›).trans (onCell hrest ht fun k d hd _ _ => push hd (hd.value k))

theorem act {w : CellWord} {r : Cells × Bool} (h : c.Sound) (hr : c.act w = some r) :
    Steps c r.1 := by
  cases w with
  | create => exact Option.some.inj hr ▸ creating h
  | store => exact Option.some.inj hr ▸ storing h false
  | storeBack => exact Option.some.inj hr ▸ storing h true
  | fetch => exact Option.some.inj hr ▸ fetching h
  | other => cases hr

theorem find {r : Cells × Bool} (h : c.Sound) (scope : List Nat)
    (hr : c.find W name scope = some r) : Steps c r.1 := by
  induction scope with
  | nil =>
    cases hr
    exact refl c
  | cons m outer ih =>
    unfold Cells.find at hr
    split at hr
    · exact act h hr
    · rename_i k _ hk
      cases hr
      refine push h fun r hr => ?_
      cases hr
      exact h.cell hk
    · exact act h hr
    · exact ih hr

theorem word {r : Cells × Bool} (h : c.Sound) (hr : c.word W name = some r) : Steps c r.1 := by
  unfold Cells.word at hr
  split at hr
  · rename_i hv
    cases hr
    exact push h (Val.refersBelow_of_isSerializable (W.literal_isSerializable hv))
  · exact find h _ hr

theorem closeArray (h : c.Sound) : Steps c c.closeArray.1 := by
  unfold Cells.closeArray
  split
  · exact refl c
  · rename_i mark marks _
    have hmarks := of_step (Step.marks (c := c) marks)
    split
    · exact hmarks
    · have hbelow : ∀ v ∈ (c.stack.popAbove mark).2.values, v.RefersBelow c.count := fun v hv =>
        h.stack v (List.mem_of_mem_drop hv)
      have harray : (Val.array (c.stack.popAbove mark).1).RefersBelow c.count := by
        rintro r ⟨⟩
      exact hmarks.trans (of_step (.stack (List.forall_mem_cons.mpr ⟨harray, hbelow⟩)))

theorem openBlock (h : c.Sound) (name : String) : Steps c (c.openBlock name).1 := by
  unfold Cells.openBlock
  split
  · exact of_step (.scope (List.forall_mem_cons.mpr ⟨h.app, h.scope⟩))
  · split
    · exact refl c
    · rename_i m _ _
      split
      · exact of_step (.scope (List.forall_mem_cons.mpr ⟨h.child ‹_›, h.scope⟩))
      · have hadd := h.addChild m name
        exact (of_step (.addChild ‹_›)).trans
          (of_step (.scope (List.forall_mem_cons.mpr ⟨Nat.lt_succ_self _, hadd.scope⟩)))

theorem closeBlock (h : c.Sound) : Steps c c.closeBlock.1 := by
  unfold Cells.closeBlock
  split
  · exact refl c
  · exact of_step (.scope fun m hm => h.scope m (List.mem_of_mem_tail hm))

theorem token {t : Token} {r : Cells × Bool} (h : c.Sound) (hr : c.token W t = some r) :
    Steps c r.1 := by
  unfold Cells.token at hr
  split at hr
  · exact Option.some.inj hr ▸ push h (Val.refersBelow_of_isSerializable rfl)
  · exact Option.some.inj hr ▸ push h (Val.refersBelow_of_isSerializable rfl)
  · exact Option.some.inj hr ▸ refl c
  · exact Option.some.inj hr ▸ refl c
  · exact Option.some.inj hr ▸ of_step (.marks _)
  · exact Option.some.inj hr ▸ closeArray h
  · exact Option.some.inj hr ▸ openBlock h _
  · exact Option.some.inj hr ▸ closeBlock h
  · exact word h hr
  all_goals cases hr

theorem tokens {ts : List Token} {r : Cells × Bool} (h : c.Sound) (hr : c.tokens W ts = some r) :
    Steps c r.1 := by
  induction ts generalizing c with
  | nil =>
    cases hr
    exact refl c
  | cons t ts ih =>
    unfold Cells.tokens at hr
    split at hr
    · have hstep := token h ‹_›
      exact hstep.trans (ih (hstep.sound h) hr)
    · rename_i hd
      cases hr
      exact token h hd
    · cases hr

theorem closed (h : c.Sound) (start : Cells) : Steps c (c.closed start) :=
  (of_step (.scope fun m hm => h.scope m (List.mem_of_mem_drop hm))).trans (of_step (.marks _))

/-- A run is made of steps, also one that fails. -/
theorem run {source : Scanner.Tokens} {r : Cells × Bool} (h : c.Sound)
    (hr : c.run W source = some r) : Steps c r.1 := by
  unfold Cells.run at hr
  split at hr
  · rename_i d ok hd
    have hs : Steps c d := tokens h hd
    cases hr
    split
    · exact hs
    · exact hs.trans (closed (hs.sound h) c)
  · cases hr

end Steps

/-! ## Laws -/

/-- What holds of the cells. -/
structure Laws (W : CellWords) (c : Cells) : Prop where
  /-- A cell has the value of the latest store to it. -/
  latest : ∀ {k v newer older}, c.stores = newer ++ (k, v) :: older → (∀ w, (k, w) ∉ newer) →
    c.value k = v
  /-- A cell that nothing was stored to has no value. -/
  unstored : ∀ {k}, (∀ v, (k, v) ∉ c.stores) → c.value k = .null
  /-- A store changes the value of no other cell. -/
  others : ∀ {j k} v, j ≠ k → (c.put k v).value j = c.value j
  /-- A text denotes the cell of that name in the current module. -/
  text : ∀ {m outer name}, c.scope = m :: outer → Text.startsWith name "__" = false →
    c.target? (.str name) = some (c.named m name)
  /-- A bare name stands for a reference to the innermost cell of that name. -/
  bare : ∀ {inner m outer name k}, c.scope = inner ++ m :: outer → W.literal name = none →
    (∀ n ∈ inner, W.own n name = none ∧ c.cell? n name = none ∧ W.imported n name = none) →
    W.own m name = none → c.cell? m name = some k →
    c.word W name = some (c.push (.variableRef ⟨k, name⟩), true)
  /-- A variable that is made again is as it was, and so is all else. -/
  again : ∀ {m name k}, c.cell? m name = some k → c.named m name = (k, c)
  /-- Names that differ, or stand in different modules, denote different cells. -/
  apart : ∀ {m name n text k}, c.cell? m name = some k → c.cell? n text = some k →
    m = n ∧ name = text
  /-- No variable has a reserved name. -/
  unreserved : ∀ {m name k}, c.cell? m name = some k → Text.startsWith name "__" = false

theorem find_of_inner {inner outer : List Nat}
    (hinner : ∀ n ∈ inner, W.own n name = none ∧ c.cell? n name = none ∧ W.imported n name = none)
    (hown : W.own m name = none) (hk : c.cell? m name = some k) :
    c.find W name (inner ++ m :: outer) = some (c.push (.variableRef ⟨k, name⟩), true) := by
  induction inner with
  | nil => simp only [List.nil_append, find, hown, hk]
  | cons n inner ih =>
    obtain ⟨⟨hown', hcell, himported⟩, hrest⟩ := List.forall_mem_cons.mp hinner
    simp only [List.cons_append, find, hown', hcell, himported]
    exact ih hrest

theorem Sound.laws (h : c.Sound) (W : CellWords) : c.Laws W where
  latest := value_eq_of_latest
  unstored := value_eq_null
  others v hj := value_put_of_ne c v hj
  text hscope hn := by simp [target?, here?, hscope, hn]
  bare hscope hliteral hinner hown hk := by
    rw [Cells.word, hliteral, hscope]
    exact find_of_inner hinner hown hk
  again hk := by rw [Cells.named, hk]
  apart := h.apart
  unreserved := h.unreserved

end Cells

end Wordstack
