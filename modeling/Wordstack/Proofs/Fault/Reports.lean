import Wordstack.Fault.Raised
import Wordstack.Proofs.Value.Plain

/-!
# Reports that cross the bridge

- **Complete reports** (`Report.Complete`): what can be read from any JSON value
  (`Report.complete_ofJson`), and what is read back from its wire form (`Report.ofJson_toJson`).
- **Reports of raised values** (`Raised.complete_report`), whatever their causes.
- **Faults** (`Fault.report_eq`): the report of a fault is that of the raised values it stands for.
- **The bridge** (`reports_survive_bridge`).
-/

namespace Wordstack

/-! ## Texts -/

theorem Json.sentItems_strs (texts : List String) :
    sentItems (texts.map .str) = texts.map .str := by
  induction texts with
  | nil => rfl
  | cons s texts ih => rw [List.map_cons, sentItems, sent, ih]

theorem Json.sentFields_strs (texts : List (String × String)) :
    sentFields (texts.map fun e => (e.1, .str e.2)) = texts.map fun e => (e.1, .str e.2) := by
  induction texts with
  | nil => rfl
  | cons e texts ih => rw [List.map_cons, sentFields, sent, ih]

/-! ## Contexts -/

theorem Json.forall_keys_distinctFields {α : Type} {P : String → Prop} {fields : List (String × α)}
    (h : ∀ e ∈ fields, P e.1) : ∀ e ∈ distinctFields fields, P e.1 := by
  refine List.foldlRecOn (motive := fun acc : List (String × α) => ∀ e ∈ acc, P e.1) fields _
    (List.forall_mem_nil _) fun acc hacc f hf e he => ?_
  rcases mem_keys_setField.mp (List.mem_map_of_mem (f := (·.1)) he) with hkey | hkey
  · obtain ⟨e', he', hkey⟩ := List.mem_map.mp hkey
    rw [← hkey]
    exact hacc e' he'
  · rw [hkey]
    exact h f hf

namespace Report

variable {entries : List (String × String)}

theorem contextOf_eq_objectOrder (entries : List (String × String)) : contextOf entries =
    objectOrder (Json.distinctFields (entries.filter fun e => e.1 != "__proto__")) :=
  indexedFirst_eq_objectOrder (Json.nodup_distinctFields _)

/-- A context has each key once. -/
theorem nodup_contextOf (entries : List (String × String)) :
    ((contextOf entries).map (·.1)).Nodup := by
  rw [contextOf_eq_objectOrder]
  exact ((objectOrder_perm _).map _).nodup_iff.mpr (Json.nodup_distinctFields _)

theorem ne_proto_of_mem_contextOf {e : String × String} (h : e ∈ contextOf entries) :
    e.1 ≠ "__proto__" := by
  rw [contextOf_eq_objectOrder, (objectOrder_perm _).mem_iff] at h
  refine Json.forall_keys_distinctFields (P := (· ≠ "__proto__")) (fun e he => ?_) e h
  simpa using (List.mem_filter.mp he).2

/-- What is a context already stays as it is. -/
theorem contextOf_contextOf (entries : List (String × String)) :
    contextOf (contextOf entries) = contextOf entries := by
  have hlisted : contextOf (contextOf entries) = objectOrder (contextOf entries) :=
    Plain.listed_eq_objectOrder (nodup_contextOf entries) fun _ => ne_proto_of_mem_contextOf
  rw [hlisted, contextOf_eq_objectOrder entries, objectOrder_objectOrder]

/-! ## Complete reports -/

/-- A report has all its parts: no text that has to be there is empty, and no text is empty that may
be absent. Its context is as objects list it. -/
structure Complete (r : Report) : Prop where
  message : r.message ≠ ""
  runtime : r.runtime ≠ ""
  errorType : r.errorType ≠ ""
  wordLocation : r.wordLocation ≠ some ""
  moduleName : r.moduleName ≠ some ""
  context : contextOf r.context = r.context

theorem textField?_ne_empty (key : String) (x : Json) : textField? key x ≠ some "" := by
  unfold textField?
  split
  · split
    · simp
    · rename_i s _ h
      intro hs
      obtain rfl := Option.some.inj hs
      exact h rfl
  · simp

theorem getD_textField?_ne_empty {standIn : String} (h : standIn ≠ "") (key : String) (x : Json) :
    (textField? key x).getD standIn ≠ "" := by
  have hne := textField?_ne_empty key x
  cases htext : textField? key x with
  | none => exact h
  | some s =>
    rw [htext] at hne
    exact fun hs => hne (congrArg some hs)

/-- Whatever the other side has sent, the report that is read is complete. -/
theorem complete_ofJson (x : Json) : (ofJson x).Complete where
  message := getD_textField?_ne_empty (by decide) "message" x
  runtime := getD_textField?_ne_empty (by decide) "runtime" x
  errorType := getD_textField?_ne_empty (by decide) "error_type" x
  wordLocation := textField?_ne_empty "word_location" x
  moduleName := textField?_ne_empty "module_name" x
  context := contextOf_contextOf _

/-! ## Wire forms -/

variable {r : Report}

/-- The wire form is made of texts, which arrive as they were sent. -/
theorem sent_toJson (r : Report) : r.toJson.sent = r.toJson := by
  have htrace := Json.sentItems_strs r.stackTrace
  have hcontext := Json.sentFields_strs r.context
  unfold toJson Json.ofFields Json.strs
  cases r.wordLocation <;> cases r.moduleName <;>
    simp [Json.sent, Json.sentFields, htrace, hcontext]

theorem textField?_of_str {key s : String} {x : Json} (h : x.field? key = some (.str s))
    (hs : s ≠ "") : textField? key x = some s := by
  unfold textField?
  rw [h]
  simp [hs]

theorem textField?_of_map {key : String} {text? : Option String} {x : Json}
    (h : x.field? key = text?.map .str) (hs : text? ≠ some "") : textField? key x = text? := by
  cases text? with
  | none => simp [textField?, h]
  | some s => exact textField?_of_str h fun hempty => hs (congrArg some hempty)

/-- A complete report is read back from its wire form. -/
theorem ofJson_toJson (h : r.Complete) : ofJson r.toJson = r := by
  have hmessage : r.toJson.field? "message" = some (.str r.message) := rfl
  have hruntime : r.toJson.field? "runtime" = some (.str r.runtime) := rfl
  have htrace : r.toJson.field? "stack_trace" = some (Json.strs r.stackTrace) := rfl
  have htype : r.toJson.field? "error_type" = some (.str r.errorType) := rfl
  have hcontext : r.toJson.field? "context" =
      some (.obj (r.context.map fun e => (e.1, .str e.2))) := rfl
  have hlocation : r.toJson.field? "word_location" = r.wordLocation.map .str := by
    unfold toJson
    cases r.wordLocation <;> cases r.moduleName <;> rfl
  have hmodule : r.toJson.field? "module_name" = r.moduleName.map .str := by
    unfold toJson
    cases r.wordLocation <;> cases r.moduleName <;> rfl
  have hlines : ((Json.strs r.stackTrace).arr?.getD []).filterMap Json.str? = r.stackTrace := by
    simp [Json.strs, Json.arr?, List.filterMap_map, Function.comp_def, Json.str?]
  have hentries : (((Json.obj (r.context.map fun e => (e.1, .str e.2))).obj?.getD []).filterMap
      fun e => e.2.str?.map fun s => (e.1, s)) = r.context := by
    simp [Json.obj?, List.filterMap_map, Json.str?]
  have hordered : indexedFirst r.context = r.context := by
    rw [← h.context, indexedFirst_eq_objectOrder (nodup_contextOf _), contextOf_eq_objectOrder,
      objectOrder_objectOrder]
  unfold ofJson
  rw [textField?_of_str hmessage h.message, textField?_of_str hruntime h.runtime,
    textField?_of_str htype h.errorType, textField?_of_map hlocation h.wordLocation,
    textField?_of_map hmodule h.moduleName, htrace, hcontext]
  simp only [Option.getD_some, Option.bind_some, hlines, hentries, hordered, h.context]

end Report

/-! ## Raised values -/

theorem Location.toText_ne_empty (l : Location) : l.toText ≠ "" := by
  intro h
  have hlength := congrArg String.length h
  simp [toText] at hlength

namespace Raised

variable {values : List Raised} {k : Nat}

/-- The report of an error with a message and a class name is complete, wherever its causes lead. -/
theorem complete_report (hm : (valueAt values k).message ≠ "")
    (hk : (valueAt values k).kind? ≠ some "") (context : List (String × String)) :
    (report values k context).Complete where
  message := hm
  runtime := show Fault.runtimeName ≠ "" by decide
  errorType := by
    show (valueAt values k).kind?.getD "Error" ≠ ""
    cases hkind : (valueAt values k).kind? with
    | none => decide
    | some name =>
      rw [hkind] at hk
      exact fun h => hk (congrArg some h)
  wordLocation := by
    show (if _ then _ else _ : Option String) ≠ _
    split
    · cases (valueAt values k).location? with
      | none => nofun
      | some l => exact fun h => l.toText_ne_empty (Option.some.inj h)
    · nofun
  moduleName := by
    show (if _ then _ else _ : Option String) ≠ _
    split
    · nofun
    · rename_i hmodule
      intro h
      rw [Option.some.inj h] at hmodule
      exact hmodule rfl
  context := Report.contextOf_contextOf _

end Raised

/-! ## Faults -/

namespace Fault

variable {f cause : Fault}

theorem of_cause?_some (h : f.cause? = some cause) :
    f.isEngine = true ∧ f.causes = cause :: cause.causes ∧ f.root = cause.root := by
  cases f <;> first | (cases h; exact ⟨rfl, rfl, rfl⟩) | cases h

theorem of_cause?_none (h : f.cause? = none) : f.causes = [] ∧ f.root = f := by
  cases f <;> first | exact ⟨rfl, rfl⟩ | (cases h; exact ⟨rfl, rfl⟩)

/-- From the innermost fault outwards along the causes. -/
theorem cause_induction {P : Fault → Prop} (innermost : ∀ f : Fault, f.cause? = none → P f)
    (outer : ∀ f cause : Fault, f.cause? = some cause → P cause → P f) (f : Fault) : P f := by
  generalize hcauses : f.causes = causes
  induction causes generalizing f with
  | nil =>
    refine innermost f ?_
    cases hcause : f.cause? with
    | none => rfl
    | some cause =>
      rw [(of_cause?_some hcause).2.1] at hcauses
      cases hcauses
  | cons g causes ih =>
    cases hcause : f.cause? with
    | none =>
      rw [(of_cause?_none hcause).1] at hcauses
      cases hcauses
    | some cause =>
      rw [(of_cause?_some hcause).2.1] at hcauses
      cases hcauses
      exact outer f g hcause (ih g rfl)

end Fault

namespace Raised

variable {values : List Raised} {k : Nat} {unseen : List Nat}

theorem rootFrom_end (hn : (valueAt values k).next? = none) : rootFrom values unseen k = k := by
  rw [rootFrom, hn]
  split <;> rfl

theorem rootFrom_next {cause : Nat} (hk : k ∈ unseen)
    (hn : (valueAt values k).next? = some cause) :
    rootFrom values unseen k = rootFrom values (unseen.erase k) cause := by
  rw [rootFrom, dif_pos hk, hn]

/-- A fault stands at a place, and its causes at the places after it. -/
def Stands (values : List Raised) (k : Nat) (f : Fault) : Prop :=
  ∀ j g, (f :: f.causes)[j]? = some g →
    valueAt values (k + j) = ofFault g (g.cause?.map fun _ => k + j + 1)

theorem stands_raised (f : Fault) : Stands f.raised 0 f := by
  intro j g hg
  unfold valueAt Fault.raised
  rw [List.getElem?_mapIdx, Nat.zero_add, hg]
  rfl

theorem Stands.here {f : Fault} (h : Stands values k f) :
    valueAt values k = ofFault f (f.cause?.map fun _ => k + 1) :=
  h 0 f rfl

theorem Stands.cause {f cause : Fault} (h : Stands values k f) (hc : f.cause? = some cause) :
    Stands values (k + 1) cause := by
  intro j g hg
  have hnext := h (j + 1) g (by rwa [(Fault.of_cause?_some hc).2.1, List.getElem?_cons_succ])
  rw [show k + 1 + j = k + (j + 1) by omega]
  exact hnext

/-- The causes of a fault end with its root. -/
theorem Stands.rootFrom {f : Fault} (h : Stands values k f)
    (hu : ∀ j, j ≤ f.causes.length → k + j ∈ unseen) :
    rootFrom values unseen k = k + f.causes.length ∧
      valueAt values (k + f.causes.length) = ofFault f.root none := by
  induction f using Fault.cause_induction generalizing k unseen with
  | innermost f hf =>
    obtain ⟨hcauses, hroot⟩ := Fault.of_cause?_none hf
    have hhere : valueAt values k = ofFault f none := by rw [h.here, hf]; rfl
    have hend : (valueAt values k).next? = none := by
      rw [hhere]
      exact ite_self none
    rw [hcauses, hroot]
    exact ⟨rootFrom_end hend, hhere⟩
  | outer f cause hf ih =>
    obtain ⟨hengine, hcauses, hroot⟩ := Fault.of_cause?_some hf
    have hnext : (valueAt values k).next? = some (k + 1) := by
      rw [h.here, hf]
      simp [next?, ofFault, hengine]
    -- the places further on are not the one that has been seen
    have hunseen : ∀ j, j ≤ cause.causes.length → k + 1 + j ∈ unseen.erase k := by
      intro j hj
      have hmem := hu (j + 1) (by rw [hcauses, List.length_cons]; omega)
      rw [show k + 1 + j = k + (j + 1) by omega]
      exact (List.mem_erase_of_ne (by omega)).mpr hmem
    obtain ⟨hfrom, hvalue⟩ := ih (h.cause hf) hunseen
    have hlength : k + f.causes.length = k + 1 + cause.causes.length := by
      rw [hcauses, List.length_cons]
      omega
    rw [hlength, hroot, rootFrom_next (k := k) (hu 0 (Nat.zero_le _)) hnext]
    exact ⟨hfrom, hvalue⟩

end Raised

namespace Fault

/-- Only errors of the engine have a place in the source. -/
theorem location?_map_eq {α : Type} (g : Location → α) (f : Fault) :
    f.location?.map g = if f.isEngine then f.location?.map g else none := by
  cases f <;> rfl

/-- The module that a fault is about has a name. -/
theorem moduleName?_eq (f : Fault) : f.moduleName? =
    if (f.moduleName?.getD "").isEmpty then none else some (f.moduleName?.getD "") := by
  have hname : ∀ module : String, (if module.isEmpty then none else some module) ≠ some "" := by
    intro module h
    split at h
    · cases h
    · rename_i hne
      cases h
      exact hne rfl
  have hne : f.moduleName? ≠ some "" := by cases f <;> first | exact hname _ | nofun
  cases hmodule : f.moduleName? with
  | none => rfl
  | some module =>
    rw [hmodule] at hne
    rw [Option.getD_some, if_neg]
    exact fun h => hne (congrArg some (String.isEmpty_iff.mp h))

/-- The report of a fault is that of the raised values that it stands for. -/
theorem report_eq (f : Fault) (context : List (String × String)) :
    f.report context = Raised.report f.raised 0 context := by
  have hlength : f.raised.length = f.causes.length + 1 := by simp [raised]
  have hhere := (Raised.stands_raised f).here
  have hplaces : ∀ j, j ≤ f.causes.length → 0 + j ∈ List.range f.raised.length := by
    intro j hj
    rw [List.mem_range]
    omega
  obtain ⟨hroot, hvalue⟩ := (Raised.stands_raised f).rootFrom hplaces
  rw [Nat.zero_add] at hroot hvalue
  have htrace : (Raised.ofFault f (f.cause?.map fun _ => 0 + 1)).trace = [] := by
    unfold Raised.trace Raised.ofFault
    split <;> rfl
  -- a fault is its own root where it has no cause
  have hinner : f.cause?.isSome = !decide (f.causes.length = 0) := by
    cases hcause : f.cause? with
    | none => simp [(of_cause?_none hcause).1]
    | some cause => simp [(of_cause?_some hcause).2.1]
  unfold report Raised.report Raised.root
  simp only [hroot, hvalue, hhere, htrace, hinner]
  rw [Report.mk.injEq]
  refine ⟨rfl, rfl, rfl, rfl, location?_map_eq _ f, moduleName?_eq f, ?_⟩
  by_cases h : f.causes.length = 0
  · simp [h]
  · simp [h, Raised.ofFault]

end Fault

/-! ## The bridge -/

/-- Failure reports survive the bridge. The report that is read from any JSON value is complete, and
reading it again changes nothing. The report of a raised value with a message and a class name, with
any context, is read as it was made, whatever its causes are and though they may lead in a circle;
and what a runtime makes of its faults are such reports. -/
theorem reports_survive_bridge :
    (∀ x : Json, (Report.ofJson x).Complete ∧
      Report.ofJson (Report.ofJson x).toJson = Report.ofJson x) ∧
    (∀ (values : List Raised) (k : Nat) (context : List (String × String)),
      (Raised.valueAt values k).message ≠ "" → (Raised.valueAt values k).kind? ≠ some "" →
      Report.ofJson (Raised.report values k context).toJson.sent =
        Raised.report values k context) ∧
    ∀ (f : Fault) (context : List (String × String)),
      f.report context = Raised.report f.raised 0 context := by
  refine ⟨fun x => ?_, fun values k context hm hk => ?_, Fault.report_eq⟩
  · have hcomplete := Report.complete_ofJson x
    exact ⟨hcomplete, Report.ofJson_toJson hcomplete⟩
  · rw [Report.sent_toJson]
    exact Report.ofJson_toJson (Raised.complete_report hm hk context)

/-- An error whose cause is one of two that are the cause of each other. -/
def Raised.circle : List Raised := [
  { kind? := some "ModuleError", sort := "object", message := "Error in module m: x",
    isEngine := true, module := "m", stack := "ModuleError: x\n    at run (a.js:1:2)\n",
    cause? := some 1 },
  { kind? := some "NativeWordError", sort := "object", message := "Error in W: y", isEngine := true,
    location? := some .origin, cause? := some 2 },
  { kind? := some "ForthicError", sort := "object", message := "", isEngine := true,
    cause? := some 1 }]

/-- The root is the error that comes again first. What the caller says of it is set over that. -/
theorem reports_survive_bridge_circle :
    let context := [("word_name", "W"), ("root_message", "z"), ("2", "b"), ("1", "")]
    (Raised.valueAt Raised.circle 0).message ≠ "" ∧
    (Raised.valueAt Raised.circle 0).kind? ≠ some "" ∧
    Report.ofJson (Raised.report Raised.circle 0 context).toJson.sent =
      Raised.report Raised.circle 0 context ∧
    Raised.report Raised.circle 0 context = {
      message := "Error in module m: x", runtime := "typescript",
      stackTrace := ["at run (a.js:1:2)"], errorType := "ModuleError", wordLocation := none,
      moduleName := some "m",
      context := [("1", ""), ("2", "b"), ("root_error_type", "NativeWordError"),
        ("root_message", "z"), ("word_name", "W")] } := by
  have hm : (Raised.valueAt Raised.circle 0).message ≠ "" := by decide
  have hk : (Raised.valueAt Raised.circle 0).kind? ≠ some "" := by decide
  exact ⟨hm, hk, reports_survive_bridge.2.1 Raised.circle 0 _ hm hk, by decide +kernel⟩

end Wordstack
