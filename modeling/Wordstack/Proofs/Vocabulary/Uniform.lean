import Wordstack.Proofs.Vocabulary.Avoiding
import Wordstack.Proofs.Word.Blind

/-!
# The core vocabulary depends on what it is given only

- **Declarations** (`ModuleSpec.Uniform`): all code of a declared module is uniform.
- **The core vocabulary** (`coreModule_uniform`): its words take identities from their operands and
  from what the interpreter replies, and only hand them on.
-/

namespace Wordstack

/-- All native code of the declaration depends on what it is given only. -/
structure ModuleSpec.Uniform (spec : ModuleSpec) : Prop where
  natives : ∀ s ∈ spec.natives, Native.UniformOn s.code ∧ ∀ h ∈ s.handlers, h.Uniform
  directs : ∀ s ∈ spec.directs, s.code.Uniform ∧ ∀ h ∈ s.handlers, h.Uniform

namespace Native

open Paired

variable {P : Pairing} {v w : Val} {vs ws : List Val}

/-! ## Operands -/

theorem paired_text (what : String) (h : v.Paired P w) :
    (text what v).Paired P (· = ·) (text what w) := by
  cases h with
  | str s => exact .pure rfl
  | _ => exact .fail _

theorem paired_items (what : String) (h : v.Paired P w) :
    (items what v).Paired P (Val.AllPaired P) (items what w) := by
  cases h with
  | null => exact .pure .nil
  | array h => exact .pure h
  | _ => exact .fail _

theorem paired_checkVariableName (name : String) :
    (checkVariableName name).Paired P (fun _ _ => True) (checkVariableName name) := by
  unfold checkVariableName
  split
  · refine (plain .topInput rfl).bind fun _ _ (h : _ = _) => ?_
    refine (plain .callLocation rfl).bind fun _ _ (h' : _ = _) => ?_
    rw [h, h']
    exact .fail _
  · exact .pure ⟨⟩

/-- A reference stands for the cell that it refers to, a name for the one that is replied. -/
theorem paired_variableCell (h : v.Paired P w) :
    (variableCell v).Paired P P.cell (variableCell w) := by
  have hnamed : Native.Paired P P.cell
      (do
        let name ← text "Variable" v
        checkVariableName name
        return (← query (.variableNamed name)).id)
      (do
        let name ← text "Variable" w
        checkVariableName name
        return (← query (.variableNamed name)).id) := by
    refine (paired_text _ h).bind fun name _ e => e ▸ ?_
    exact (paired_checkVariableName name).bind fun _ _ _ =>
      (plain (.variableNamed name) rfl).bind fun _ _ hr => .pure hr.1
  cases h with
  | variableRef name h => exact .pure h
  | _ => exact hnamed

theorem paired_createVariables (h : Val.AllPaired P vs ws) :
    (createVariables vs).Paired P (fun _ _ => True) (createVariables ws) := by
  induction h with
  | nil => exact .pure ⟨⟩
  | cons hv _ ih =>
    refine (paired_text _ hv).bind fun name _ e => e ▸ ?_
    exact (paired_checkVariableName name).bind fun _ _ _ =>
      (plain (.variableNamed name) rfl).bind fun _ _ _ => ih

theorem paired_importList (h : Val.AllPaired P vs ws) :
    (importList vs).Paired P (· = ·) (importList ws) := by
  induction h with
  | nil => exact .pure rfl
  | @cons v w vs ws hv hvs ih =>
    have hrefused : v.display = w.display := hv.display_eq
    cases hv with
    | str name => exact ih.bind fun _ _ e => .pure (congrArg _ e)
    | array hitems =>
      -- only an array of two items is a name with its qualifier
      rcases hitems with _ | ⟨hname, _ | ⟨hqualifier, _ | _⟩⟩
      case cons.cons.nil =>
        refine (paired_text _ hname).bind fun _ _ e => (paired_text _ hqualifier).bind
          fun _ _ e' => ih.bind fun _ _ e'' => .pure ?_
        rw [e, e', e'']
      all_goals
        simp only [importList, hrefused]
        exact .fail _
    | _ =>
      simp only [importList, hrefused]
      exact .fail _

/-! ## Results -/

theorem paired_none :
    (pure none : Native (Option Val)).Paired P (Option.Rel (Val.Paired P)) (pure none) :=
  .pure .none

theorem paired_some (h : v.Paired P w) :
    (pure (some v) : Native (Option Val)).Paired P (Option.Rel (Val.Paired P)) (pure (some w)) :=
  .pure (.some h)

theorem paired_only {x y : Native Unit} (h : x.Paired P (fun _ _ => True) y) :
    (only x).Paired P (Option.Rel (Val.Paired P)) (only y) :=
  h.bind fun _ _ _ => paired_none

/-- Code on one input; a wrong number of them, which no call gives it, makes it do nothing. -/
theorem uniformOn_one {f : Val → Native (Option Val)}
    (h : ∀ {P : Pairing} {v w : Val}, v.Paired P w →
      (f v).Paired P (Option.Rel (Val.Paired P)) (f w)) :
    UniformOn fun
      | [v], _ => f v
      | _, _ => pure none := by
  intro P args args' _ _ hargs _
  rcases hargs with _ | ⟨hv, _ | ⟨_, _⟩⟩
  · exact paired_none
  · exact h hv
  · exact paired_none

@[inherit_doc uniformOn_one]
theorem uniformOn_two {f : Val → Val → Native (Option Val)}
    (h : ∀ {P : Pairing} {u v w x : Val}, u.Paired P v → w.Paired P x →
      (f u w).Paired P (Option.Rel (Val.Paired P)) (f v x)) :
    UniformOn fun
      | [v, w], _ => f v w
      | _, _ => pure none := by
  intro P args args' _ _ hargs _
  rcases hargs with _ | ⟨hv, _ | ⟨hw, _ | ⟨_, _⟩⟩⟩
  · exact paired_none
  · exact paired_none
  · exact h hv hw
  · exact paired_none

/-- A query whose reply does not matter. -/
theorem paired_tell {q q' : Query} {T : q.Reply → q'.Reply → Prop} (h : Query.Paired P q q' T) :
    (query q).Paired P (fun _ _ => True) (query q') :=
  (Paired.query h).mono fun _ _ _ => ⟨⟩

end Native

namespace Core

open Native Paired

theorem paired_tryRun {P : Pairing} (source : String) :
    (tryRun source).Paired P (fun _ _ => True) (tryRun source) := by
  refine (plain .stack rfl).bind fun (saved saved' : List Val) hsaved => ?_
  refine (plain (.attempt source) rfl).bind fun (r r' : Option Fault) (h : r = r') => ?_
  subst h
  cases r with
  | none => exact paired_tell (.push .null)
  | some f =>
    change Native.Paired P _ (ite (f.isStop = true) _ _) (ite (f.isStop = true) _ _)
    cases f.isStop with
    | true => exact .fail f
    | false =>
      refine (paired_tell (.setStack hsaved)).bind fun _ _ _ => ?_
      exact paired_tell (.push (.self rfl))

theorem paired_listing {P : Pairing} {vs ws : List Val} (h : Val.AllPaired P vs ws) :
    listing vs = listing ws := by
  have hdisplay : vs.map Val.display = ws.map Val.display := by
    induction h with
    | nil => rfl
    | cons hv _ ih => rw [List.map_cons, List.map_cons, hv.display_eq, ih]
  cases h with
  | nil => rfl
  | cons hv hvs => exact congrArg (Text.join "\n") hdisplay

theorem natives_uniform (s : NativeSpec) (hs : s ∈ natives) : UniformOn s.code := by
  simp only [natives, List.mem_cons, List.not_mem_nil, or_false] at hs
  rcases hs with rfl | rfl | rfl | rfl | rfl | rfl | rfl | rfl | rfl | rfl | rfl | rfl | rfl |
    rfl | rfl | rfl | rfl | rfl | rfl | rfl
  -- words on the stack hand their operands on
  · exact fun _ _ _ _ _ _ _ => paired_none
  · exact uniformOn_one fun h => (paired_tell (.push h)).bind fun _ _ _ => paired_some h
  · exact uniformOn_two fun ha hb => (paired_tell (.push hb)).bind fun _ _ _ => paired_some ha
  -- variables: the cell comes from a reference or from the interpreter
  · exact uniformOn_one fun h =>
      paired_only ((paired_items _ h).bind fun _ _ hvs => paired_createVariables hvs)
  · exact uniformOn_two fun hvalue htarget =>
      paired_only ((paired_variableCell htarget).bind fun _ _ hcell =>
        paired_tell (.store hcell hvalue))
  · exact uniformOn_one fun htarget =>
      (paired_variableCell htarget).bind fun _ _ hcell =>
        (Paired.query (.fetch hcell)).bind fun _ _ hv => paired_some hv
  · exact uniformOn_two fun hvalue htarget =>
      (paired_variableCell htarget).bind fun _ _ hcell =>
        (paired_tell (.store hcell hvalue)).bind fun _ _ _ => paired_some hvalue
  -- exports and imports are names only
  · refine uniformOn_one fun h => paired_only ((plain (.requireScope _) rfl).bind fun _ _ _ => ?_)
    refine (paired_items _ h).bind fun _ _ hvs => ?_
    refine (Paired.mapM hvs fun _ _ hv => paired_text _ hv).bind fun names _ e => e ▸ ?_
    exact paired_tell (.plain (q := .exportNames names) rfl)
  · refine uniformOn_one fun h => paired_only ((paired_items _ h).bind fun _ _ hvs => ?_)
    refine (paired_importList hvs).bind fun imports _ e => e ▸ ?_
    exact paired_tell (.plain (q := .useModules imports) rfl)
  -- words that do nothing, and values
  · exact fun _ _ _ _ _ _ _ => paired_none
  · exact fun _ _ _ _ _ _ _ => paired_none
  · exact fun _ _ _ _ _ _ _ => paired_some .null
  · intro P args args' _ _ hargs _
    rcases hargs with _ | ⟨hv, _ | ⟨_, _⟩⟩
    · exact paired_some (.bool false)
    · cases hv with
      | array => exact paired_some (.bool true)
      | _ => exact paired_some (.bool false)
    · cases hv <;> exact paired_some (.bool false)
  · refine uniformOn_two fun hvalue hfallback => paired_some ?_
    rw [hvalue.isMissing_eq]
    split
    · exact hfallback
    · exact hvalue
  · refine uniformOn_two fun hvalue hsource => ?_
    rw [hvalue.isMissing_eq]
    split
    · exact paired_some hvalue
    · refine (paired_text _ hsource).bind fun source _ e => e ▸ ?_
      exact (paired_tell (.plain (q := .run source) rfl)).bind fun _ _ _ =>
        (plain .pop rfl).bind fun _ _ hv => paired_some hv
  -- options are a new value; the profile is plain
  · refine uniformOn_one fun h => (paired_items _ h).bind fun _ _ hvs => ?_
    refine (Paired.lift (Options.paired_ofFlat hvs)).bind fun _ _ hoptions => ?_
    exact (plain .fresh rfl).bind fun _ _ hid => paired_some (.options hid hoptions)
  · exact fun _ _ _ _ _ _ _ => paired_only (paired_tell (.plain (q := .startProfile) rfl))
  · exact fun _ _ _ _ _ _ _ => paired_only (paired_tell (.plain (q := .stopProfile) rfl))
  · refine uniformOn_one fun h => paired_only ((paired_text _ h).bind fun label _ e => e ▸ ?_)
    exact paired_tell (.plain (q := .stamp label) rfl)
  · exact fun _ _ _ _ _ _ _ => (plain .profile rfl).bind fun _ _ hv => paired_some hv

theorem directs_uniform (s : DirectSpec) (hs : s ∈ directs) : s.code.Uniform := by
  simp only [directs, List.mem_cons, List.not_mem_nil, or_false] at hs
  rcases hs with rfl | rfl | rfl | rfl
  all_goals intro P
  · refine (plain .pop rfl).bind fun (v w : Val) hv => ?_
    have hrun : (text "INTERPRET source" v >>= fun source => query (.run source)).Paired P
        (fun _ _ => True) (text "INTERPRET source" w >>= fun source => query (.run source)) :=
      (paired_text _ hv).bind fun source _ e => e ▸ paired_tell (.plain (q := .run source) rfl)
    cases hv with
    | null => exact .pure ⟨⟩
    | _ => exact hrun
  · exact (plain .pop rfl).bind fun _ _ hv => (paired_text _ hv).bind fun source _ e =>
      e ▸ paired_tryRun source
  · refine (plain .top rfl).bind fun (v w : Option Val) hv => ?_
    have hlisting : listing v.toList = listing w.toList := by
      cases hv with
      | none => rfl
      | some hv => exact paired_listing (.cons hv .nil)
    rw [hlisting]
    exact (paired_tell (.plain (q := .print _) rfl)).bind fun _ _ _ => .fail _
  · refine (plain .stack rfl).bind fun (vs ws : List Val) hvs => ?_
    rw [paired_listing (List.rel_reverse hvs)]
    exact (paired_tell (.plain (q := .print _) rfl)).bind fun _ _ _ => .fail _

end Core

theorem coreModule_uniform : coreModule.Uniform where
  natives s hs := ⟨Core.natives_uniform s hs, by rw [Core.handlers_eq_nil.1 s hs]; nofun⟩
  directs s hs := ⟨Core.directs_uniform s hs, by rw [Core.handlers_eq_nil.2 s hs]; nofun⟩

end Wordstack
