import Wordstack.Machine.Profile
import Wordstack.Proofs.Machine.Making
import Wordstack.Proofs.Wire.Decoded
import Wordstack.Proofs.Word.Avoiding
import Wordstack.Proofs.Word.Blind
import Wordstack.Remote.Client
import Wordstack.Source.Literal
import Wordstack.Vocabulary.Core

/-!
# The core vocabulary is blind and gives no variable away

- **Declarations** (`ModuleSpec.Blind`, `ModuleSpec.Avoids`): all code of a declared module is blind,
  or gives no variable away; then so do the words of the module built from it
  (`ModuleSpec.blind_build`).
- **Values from elsewhere**: literals, records of faults and profiles, and values from the wire
  refer to no variable, since they can all be sent (`Wire.isSerializable_of_decode`).
- **The core vocabulary** (`coreModule_blind`, `coreModule_avoids`): its words reach the variables
  that they are given, and those that they find by name.
-/

namespace Wordstack

/-! ## Blind code -/

/-- All native code of the declaration is blind. -/
structure ModuleSpec.Blind (spec : ModuleSpec) : Prop where
  natives : ∀ w ∈ spec.natives, (∀ args options, (w.code args options).Blind) ∧
    ∀ h ∈ w.handlers, h.Blind
  directs : ∀ w ∈ spec.directs, w.code.Blind ∧ ∀ h ∈ w.handlers, h.Blind

/-- All words of the module are blind. -/
def Module.Blind (m : Module) : Prop := ∀ w ∈ m.words, w.Blind

namespace Native

open Alike

theorem blind_text (what : String) (v : Val) : (text what v).Blind := by
  unfold text
  split
  · exact .pure _
  · exact .error _

theorem blind_items (what : String) (v : Val) : (items what v).Blind := by
  unfold items
  split
  · exact .pure _
  · exact .pure _
  · exact .error _

/-- The two places of a refused name are in the fault only. -/
theorem blind_checkVariableName (name : String) : (checkVariableName name).Blind := by
  unfold checkVariableName
  split
  · exact .ask .topInput fun _ _ _ => .ask .callLocation fun _ _ _ => .fail rfl
  · exact .pure _

theorem blind_query (q : Query) (h : ∀ r r', q.Alike true r r' → r = r') : (query q).Blind :=
  .query h

theorem blind_variableCell (v : Val) : (variableCell v).Blind := by
  unfold variableCell
  split
  · exact .pure _
  · refine (blind_text _ _).bind fun name => (blind_checkVariableName name).bind fun _ => ?_
    exact (blind_query (.variableNamed name) fun _ _ => id).bind fun _ => .pure _

theorem blind_createVariables (vs : List Val) : (createVariables vs).Blind := by
  induction vs with
  | nil => exact .pure _
  | cons v vs ih =>
    refine (blind_text _ _).bind fun name => (blind_checkVariableName name).bind fun _ => ?_
    exact (blind_query (.variableNamed name) fun _ _ => id).bind fun _ => ih

theorem blind_importList (vs : List Val) : (importList vs).Blind := by
  fun_induction importList vs with
  | case1 => exact .pure _
  | case2 name vs ih => exact ih.bind fun _ => .pure _
  | case3 name qualifier vs ih =>
    refine (blind_text _ _).bind fun _ => (blind_text _ _).bind fun _ => ?_
    exact ih.bind fun _ => .pure _
  | case4 => exact .error _

theorem blind_only {x : Native Unit} (h : x.Blind) : (only x).Blind := h.bind fun _ => .pure _

end Native

namespace Core

open Native

/-- The fault of the source is seen as a record, which has no places. -/
theorem blind_tryRun (source : String) : (tryRun source).Blind := by
  refine .ask .stack fun (saved : List Val) _ h => ?_
  obtain rfl := h
  refine .ask (.attempt source) fun (r r' : Option Fault) h => ?_
  cases h with
  | none => exact blind_query (.push .null) fun _ _ => id
  | @some f g h =>
    change Native.Alike true (ite (f.isStop = true) _ _) (ite (g.isStop = true) _ _)
    rw [h.isStop_eq, h.toRecord_eq]
    cases g.isStop with
    | true => exact .fail h
    | false => exact .ask (.setStack saved) fun _ _ _ =>
        blind_query (.push g.toRecord) fun _ _ => id

theorem natives_blind (w : NativeSpec) (hw : w ∈ natives) :
    (∀ args options, (w.code args options).Blind) ∧ ∀ h ∈ w.handlers, h.Blind := by
  simp only [natives, List.mem_cons, List.not_mem_nil, or_false] at hw
  rcases hw with rfl | rfl | rfl | rfl | rfl | rfl | rfl | rfl | rfl | rfl | rfl | rfl | rfl |
    rfl | rfl | rfl | rfl | rfl | rfl | rfl
  all_goals refine ⟨fun args options => ?_, List.forall_mem_nil _⟩
  all_goals dsimp only
  -- Most words do nothing on a wrong number of inputs, which no call gives them.
  all_goals try split
  all_goals try exact .pure _
  case h_1 a => exact (blind_query (.push a) fun _ _ => id).bind fun _ => .pure _
  case h_1 a b => exact (blind_query (.push b) fun _ _ => id).bind fun _ => .pure _
  case h_1 names =>
    exact blind_only ((blind_items _ names).bind fun vs => blind_createVariables vs)
  case h_1 value target =>
    exact blind_only ((blind_variableCell target).bind fun cell =>
      blind_query (.store cell value) fun _ _ => id)
  case h_1 target =>
    exact (blind_variableCell target).bind fun cell =>
      (blind_query (.fetch cell) fun _ _ => id).bind fun _ => .pure _
  case h_1 value target =>
    exact (blind_variableCell target).bind fun cell =>
      (blind_query (.store cell value) fun _ _ => id).bind fun _ => .pure _
  case h_1 names =>
    refine blind_only ((blind_query (.requireScope "addExportable") fun _ _ => id).bind fun _ => ?_)
    exact (blind_items _ names).bind fun vs => (Alike.mapM (blind_text _) vs).bind fun names =>
      blind_query (.exportNames names) fun _ _ => id
  case h_1 names =>
    exact blind_only ((blind_items _ names).bind fun vs => (blind_importList vs).bind fun imports =>
      blind_query (.useModules imports) fun _ _ => id)
  case h_1 value source =>
    split
    · exact .pure _
    · refine (blind_text _ source).bind fun source => ?_
      exact (blind_query (.run source) fun _ _ => id).bind fun _ =>
        (blind_query .pop fun _ _ => id).bind fun _ => .pure _
  case h_1 list =>
    exact (blind_items _ list).bind fun vs => (Alike.lift _).bind fun options =>
      (blind_query .fresh fun _ _ => id).bind fun _ => .pure _
  · exact blind_only (blind_query .startProfile fun _ _ => id)
  · exact blind_only (blind_query .stopProfile fun _ _ => id)
  · exact blind_only ((blind_text _ _).bind fun label => blind_query (.stamp label) fun _ _ => id)
  · exact (blind_query .profile fun _ _ => id).bind fun _ => .pure _

theorem directs_blind (w : DirectSpec) (hw : w ∈ directs) :
    w.code.Blind ∧ ∀ h ∈ w.handlers, h.Blind := by
  simp only [directs, List.mem_cons, List.not_mem_nil, or_false] at hw
  rcases hw with rfl | rfl | rfl | rfl
  all_goals refine ⟨?_, List.forall_mem_nil _⟩
  · refine (blind_query .pop fun _ _ => id).bind fun (v : Val) => ?_
    cases v with
    | null => exact .pure _
    | _ => exact (blind_text _ _).bind fun source => blind_query (.run source) fun _ _ => id
  · exact (blind_query .pop fun _ _ => id).bind fun v =>
      (blind_text _ v).bind fun source => blind_tryRun source
  · exact (blind_query .top fun _ _ => id).bind fun (v : Option Val) =>
      (blind_query (.print (listing v.toList)) fun _ _ => id).bind fun _ => .error _
  · exact (blind_query .stack fun _ _ => id).bind fun (vs : List Val) =>
      (blind_query (.print (listing vs.reverse)) fun _ _ => id).bind fun _ => .error _

end Core

theorem coreModule_blind : coreModule.Blind := ⟨Core.natives_blind, Core.directs_blind⟩

/-! ## Building -/

theorem Module.blind_addWord {m : Module} {w : Word} (id : Nat) (hm : m.Blind) (hw : w.Blind) :
    (m.addWord id w).Blind := by
  intro v hv
  rcases List.mem_append.mp hv with hv | hv
  · exact hm v hv
  · obtain rfl := List.mem_singleton.mp hv
    exact (Word.blind_relabel _ _).mpr hw

theorem ModuleSpec.blind_build {spec : ModuleSpec} (hs : spec.Blind) {id : Nat} {m : Module}
    (h : spec.build id = .ok m) : m.Blind :=
  of_build h (Word.blind_relabel _ _).mpr (fun s hmem _ _ _ => hs.natives s hmem)
    fun s hmem _ => hs.directs s hmem

/-! ## Values from elsewhere -/

theorem Profile.areSerializable_stampRecords (before : Option Binary64)
    (stamps : List (String × Binary64)) :
    Val.areSerializable (stampRecords before stamps) = true := by
  induction stamps generalizing before with
  | nil => rfl
  | cons stamp rest ih =>
    simp [stampRecords, Val.areSerializable, Val.isSerializable, Val.fieldsSerializable, ih]

theorem Profile.isSerializable_toRecord (p : Profile) : p.toRecord.isSerializable = true := by
  have hcounts : ∀ counts : List (String × Nat), Val.areSerializable (counts.map fun c =>
      .record [("word", .str c.1), ("count", .int c.2)]) = true := by
    intro counts
    induction counts with
    | nil => rfl
    | cons c rest ih =>
      simp [Val.areSerializable, Val.isSerializable, Val.fieldsSerializable, ih]
  simp [toRecord, Val.isSerializable, Val.fieldsSerializable, hcounts,
    areSerializable_stampRecords]

/-- The standard readers make values that can be sent. -/
theorem Literal.isSerializable_of_standard {zone : String} {now : Int} {r : LiteralReader}
    (hr : r ∈ standard zone now) {text : String} {v : Val} (h : r text = some v) :
    v.isSerializable = true := by
  simp only [standard, List.mem_cons, List.not_mem_nil, or_false] at hr
  obtain rfl | rfl | rfl | rfl | rfl := hr
  · unfold bool at h
    split at h
    · cases h; rfl
    split at h
    · cases h; rfl
    · cases h
  · obtain ⟨-, h⟩ := Option.ite_none_right_eq_some.mp h
    cases h; rfl
  · obtain ⟨-, h⟩ := Option.ite_none_right_eq_some.mp h
    obtain ⟨x, -, rfl⟩ := Option.map_eq_some_iff.mp h
    rfl
  · unfold datetime at h
    split at h
    · split at h
      · cases h; rfl
      · cases h
    · split at h
      · cases h; rfl
      · cases h
    · cases h
  · unfold date at h
    obtain ⟨⟨year, month, day⟩, -, h⟩ := Option.bind_eq_some_iff.mp h
    dsimp only at h
    split at h
    · cases h; rfl
    · cases h

/-- The operands on a stack from the wire refer to no variable. -/
theorem Wire.avoids_decodeStack {hidden : Nat → Prop} (path : String) (x : Option Json) :
    Yields (fun vs => ∀ v ∈ vs, v.Avoids hidden) (decodeStack path x) := fun vs h =>
  Val.avoids_array.mp (Val.avoids_of_isSerializable (v := .array vs)
    (serializable_decodeStack path x vs h))

theorem Client.avoids_resultStack {hidden : Nat → Prop} (c : Client)
    (reply : List (String × Json)) :
    Yields (fun vs => ∀ v ∈ vs, v.Avoids hidden) (c.resultStack reply) := by
  unfold resultStack
  dsimp only
  split
  · rename_i vs hd
    exact .ok (P := fun vs : List Val => ∀ v ∈ vs, v.Avoids hidden)
      (Wire.avoids_decodeStack _ _ vs hd)
  · exact .error

/-! ## Options -/

theorem Options.avoids_pairUp {hidden : Nat → Prop} (i : Nat) (items : List Val)
    (h : ∀ v ∈ items, v.Avoids hidden) :
    Yields (fun entries : List (String × Val) => ∀ e ∈ entries, e.2.Avoids hidden)
      (pairUp i items) := by
  fun_induction pairUp i items with
  | case1 i k value rest ih =>
    obtain ⟨-, hvalue, hrest⟩ := (List.forall_mem_cons.mp h).imp_right List.forall_mem_cons.mp
    exact (ih hrest).bind fun entries he => .ok (List.forall_mem_cons.mpr ⟨hvalue, he⟩)
  | case2 => exact .error
  | case3 => exact .ok (List.forall_mem_nil _)

theorem Options.avoids_ofFlat {hidden : Nat → Prop} {items : List Val}
    (h : ∀ v ∈ items, v.Avoids hidden) :
    Yields (fun o : Options => ∀ e ∈ o.entries, e.2.Avoids hidden) (ofFlat items) :=
  .ite .error ((avoids_pairUp 0 items h).map fun _ he =>
    Json.forall_distinctFields (P := Val.Avoids hidden) he)

/-! ## Declarations -/

/-- No code of the declaration gives a hidden cell away. -/
structure ModuleSpec.Avoids (hidden : Nat → Prop) (spec : ModuleSpec) : Prop where
  natives : ∀ s ∈ spec.natives, ∀ label inputs hasOptions,
    (Word.native label inputs hasOptions s.waits s.code s.handlers).Avoids hidden
  directs : ∀ s ∈ spec.directs, ∀ label,
    (Word.direct label s.waits s.code s.handlers).Avoids hidden

theorem ModuleSpec.avoids_build {hidden : Nat → Prop} {spec : ModuleSpec} {id : Nat} {m : Module}
    (hs : spec.Avoids hidden) (h : spec.build id = .ok m) : ∀ w ∈ m.words, w.Avoids hidden :=
  of_build h (Word.avoids_relabel _).mpr hs.natives hs.directs

/-! ## The core vocabulary -/

namespace Native

variable {hidden : Nat → Prop}

theorem avoids_text (what : String) (v : Val) : (text what v).Avoids hidden fun _ => True := by
  unfold text
  split
  · exact .pure ⟨⟩
  · exact .fail

theorem avoids_items (what : String) {v : Val} (hv : v.Avoids hidden) :
    (items what v).Avoids hidden fun vs => ∀ v ∈ vs, v.Avoids hidden := by
  unfold items
  split
  · exact .pure (List.forall_mem_nil _)
  · exact .pure (Val.avoids_array.mp hv)
  · exact .fail

theorem avoids_checkVariableName (name : String) :
    (checkVariableName name).Avoids hidden fun _ => True := by
  unfold checkVariableName
  split
  · exact (Avoids.query (q := .topInput) ⟨⟩).bind fun _ _ =>
      (Avoids.query (q := .callLocation) ⟨⟩).bind fun _ _ => .fail
  · exact .pure ⟨⟩

/-- An operand that is a reference is not one to a hidden cell, and no name stands for one. -/
theorem avoids_variableCell {v : Val} (hv : v.Avoids hidden) :
    (variableCell v).Avoids hidden fun cell => ¬ hidden cell := by
  unfold variableCell
  split
  · exact .pure (Val.avoids_variableRef.mp hv)
  · refine (avoids_text _ _).bind fun name _ => (avoids_checkVariableName name).bind fun _ _ => ?_
    exact (Avoids.query (q := .variableNamed name) ⟨⟩).bind fun _ hr => .pure hr

theorem avoids_createVariables (vs : List Val) :
    (createVariables vs).Avoids hidden fun _ => True := by
  induction vs with
  | nil => exact .pure ⟨⟩
  | cons v vs ih =>
    refine (avoids_text _ _).bind fun name _ => (avoids_checkVariableName name).bind fun _ _ => ?_
    exact (Avoids.query (q := .variableNamed name) ⟨⟩).bind fun _ _ => ih

theorem avoids_importList (vs : List Val) : (importList vs).Avoids hidden fun _ => True := by
  fun_induction importList vs with
  | case1 => exact .pure ⟨⟩
  | case2 name vs ih => exact ih.bind fun _ _ => .pure ⟨⟩
  | case3 name qualifier vs ih =>
    refine (avoids_text _ _).bind fun _ _ => (avoids_text _ _).bind fun _ _ => ?_
    exact ih.bind fun _ _ => .pure ⟨⟩
  | case4 => exact .fail

/-- No result gives nothing away. -/
theorem avoids_pure_none :
    (pure none : Native (Option Val)).Avoids hidden fun r => ∀ v ∈ r, v.Avoids hidden :=
  .pure nofun

theorem avoids_pure_some {v : Val} (hv : v.Avoids hidden) :
    (pure (some v) : Native (Option Val)).Avoids hidden fun r => ∀ v ∈ r, v.Avoids hidden :=
  .pure fun _ h => Option.some.inj h ▸ hv

theorem avoids_only {x : Native Unit} (h : x.Avoids hidden fun _ => True) :
    (only x).Avoids hidden fun r => ∀ v ∈ r, v.Avoids hidden :=
  h.bind fun _ _ => avoids_pure_none

/-- A query whose reply does not matter. -/
theorem avoids_query {q : Query} (h : q.Avoids hidden) :
    (query q).Avoids hidden fun _ => True :=
  (Avoids.query h).mono fun _ _ => ⟨⟩

end Native

namespace Core

open Native

variable {hidden : Nat → Prop}

theorem avoids_tryRun (source : String) : (tryRun source).Avoids hidden fun _ => True := by
  refine (Avoids.query (q := .stack) ⟨⟩).bind fun (saved : List Val) hsaved => ?_
  refine (avoids_query (q := .attempt source) ⟨⟩).bind fun (r : Option Fault) _ => ?_
  cases r with
  | none => exact avoids_query (q := .push .null) Val.avoids_null
  | some f =>
    change Native.Avoids hidden _ (ite (f.isStop = true) _ _)
    cases f.isStop with
    | true => exact .fail
    | false =>
      refine (avoids_query (q := .setStack saved) hsaved).bind fun _ _ => ?_
      exact avoids_query (q := .push f.toRecord) (Val.avoids_of_isSerializable rfl)

theorem natives_avoid (s : NativeSpec) (hs : s ∈ natives) (args : List Val) (options : Options)
    (hargs : ∀ v ∈ args, v.Avoids hidden) :
    (s.code args options).Avoids hidden fun r => ∀ v ∈ r, v.Avoids hidden := by
  simp only [natives, List.mem_cons, List.not_mem_nil, or_false] at hs
  rcases hs with rfl | rfl | rfl | rfl | rfl | rfl | rfl | rfl | rfl | rfl | rfl | rfl | rfl |
    rfl | rfl | rfl | rfl | rfl | rfl | rfl
  all_goals dsimp only
  -- Most words do nothing on a wrong number of inputs, which no call gives them.
  all_goals try split
  all_goals try exact avoids_pure_none
  all_goals try simp only [List.forall_mem_cons, List.not_mem_nil, false_implies, implies_true,
    and_true] at hargs
  case h_1 a =>
    exact (avoids_query (q := .push a) hargs).bind fun _ _ => avoids_pure_some hargs
  case h_1 a b =>
    exact (avoids_query (q := .push b) hargs.2).bind fun _ _ => avoids_pure_some hargs.1
  case h_1 names =>
    exact avoids_only ((avoids_items _ hargs).bind fun vs _ => avoids_createVariables vs)
  case h_1 value target =>
    exact avoids_only ((avoids_variableCell hargs.2).bind fun cell hcell =>
      avoids_query (q := .store cell value) ⟨hcell, hargs.1⟩)
  case h_1 target =>
    exact (avoids_variableCell hargs).bind fun cell _ =>
      (Avoids.query (q := .fetch cell) ⟨⟩).bind fun _ hv => avoids_pure_some hv
  case h_1 value target =>
    exact (avoids_variableCell hargs.2).bind fun cell hcell =>
      (avoids_query (q := .store cell value) ⟨hcell, hargs.1⟩).bind fun _ _ =>
        avoids_pure_some hargs.1
  case h_1 names =>
    refine avoids_only ((avoids_query (q := .requireScope _) ⟨⟩).bind fun _ _ => ?_)
    exact (avoids_items _ hargs).bind fun vs _ => (Avoids.mapM (avoids_text _) vs).bind
      fun names _ => avoids_query (q := .exportNames names) ⟨⟩
  case h_1 names =>
    exact avoids_only ((avoids_items _ hargs).bind fun vs _ => (avoids_importList vs).bind
      fun imports _ => avoids_query (q := .useModules imports) ⟨⟩)
  · exact avoids_pure_some Val.avoids_null
  · exact avoids_pure_some (Val.avoids_bool true)
  · exact avoids_pure_some (Val.avoids_bool false)
  case h_1 value fallback =>
    refine avoids_pure_some ?_
    split
    · exact hargs.2
    · exact hargs.1
  case h_1 value source =>
    split
    · exact avoids_pure_some hargs.1
    · refine (avoids_text _ source).bind fun source _ => ?_
      exact (avoids_query (q := .run source) ⟨⟩).bind fun _ _ =>
        (Avoids.query (q := .pop) ⟨⟩).bind fun _ hv => avoids_pure_some hv
  case h_1 list =>
    refine (avoids_items _ hargs).bind fun vs hvs => ?_
    refine (Avoids.lift (Options.avoids_ofFlat hvs)).bind fun options hoptions => ?_
    exact (avoids_query (q := .fresh) ⟨⟩).bind fun _ _ =>
      avoids_pure_some (Val.avoids_options.mpr hoptions)
  · exact avoids_only (avoids_query (q := .startProfile) ⟨⟩)
  · exact avoids_only (avoids_query (q := .stopProfile) ⟨⟩)
  · exact avoids_only ((avoids_text _ _).bind fun label _ => avoids_query (q := .stamp label) ⟨⟩)
  · exact (Avoids.query (q := .profile) ⟨⟩).bind fun _ hv => avoids_pure_some hv

theorem directs_avoid (s : DirectSpec) (hs : s ∈ directs) :
    s.code.Avoids hidden fun _ => True := by
  simp only [directs, List.mem_cons, List.not_mem_nil, or_false] at hs
  rcases hs with rfl | rfl | rfl | rfl
  · refine (avoids_query (q := .pop) ⟨⟩).bind fun (v : Val) _ => ?_
    cases v with
    | null => exact .pure ⟨⟩
    | _ => exact (avoids_text _ _).bind fun source _ => avoids_query (q := .run source) ⟨⟩
  · exact (avoids_query (q := .pop) ⟨⟩).bind fun v _ =>
      (avoids_text _ v).bind fun source _ => avoids_tryRun source
  · exact (avoids_query (q := .top) ⟨⟩).bind fun (v : Option Val) _ =>
      (avoids_query (q := .print (listing v.toList)) ⟨⟩).bind fun _ _ => .fail
  · exact (avoids_query (q := .stack) ⟨⟩).bind fun (vs : List Val) _ =>
      (avoids_query (q := .print (listing vs.reverse)) ⟨⟩).bind fun _ _ => .fail

/-- No word of the core vocabulary has a handler. -/
theorem handlers_eq_nil : (∀ s ∈ natives, s.handlers = []) ∧ ∀ s ∈ directs, s.handlers = [] := by
  decide


end Core

theorem coreModule_avoids (hidden : Nat → Prop) : coreModule.Avoids hidden where
  natives s hs label inputs hasOptions := by
    rw [Word.Avoids, Core.handlers_eq_nil.1 s hs]
    exact ⟨fun args options hargs _ => Core.natives_avoid s hs args options hargs, nofun⟩
  directs s hs label := by
    rw [Word.Avoids, Core.handlers_eq_nil.2 s hs]
    exact ⟨Core.directs_avoid s hs, nofun⟩

end Wordstack
