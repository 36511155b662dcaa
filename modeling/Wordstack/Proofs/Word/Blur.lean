import Wordstack.Module.Lookup
import Wordstack.Proofs.Vocabulary.Avoiding

/-!
# Words without their places

The same source compiled at two places gives words that differ in the locations they were read from,
and in nothing else.

- **Blurring** (`Word.blur`, `Module.blur`): words and modules without these locations, if they may
  differ.
- **Words that are alike** (`Word.Alike`): of the same kind, with the same parts but for locations
  (`Word.alike_of_blur`).
- **What is left** (`Word.name_blur`, `Module.ownWord?_blur`, …): names, code and what is found under
  a name.
-/

namespace Wordstack

variable {loose : Bool}

/-! ## Words -/

/-- A location, unless it may be any. -/
def Location.blur (loose : Bool) (l : Location) : Location := if loose then .origin else l

/-- The label without the location, if that may differ. -/
def WordLabel.blur (loose : Bool) (l : WordLabel) : WordLabel :=
  { l with location := l.location.map (Location.blur loose) }

mutual
/-- The word without the locations that it was read from, if these may differ. -/
def Word.blur (loose : Bool) : Word → Word
  | .constant l v => .constant (l.blur loose) v
  | .definition l body => .definition (l.blur loose) (Word.blurBody loose body)
  | .native l inputs takesOptions waits code handlers =>
    .native (l.blur loose) inputs takesOptions waits code handlers
  | .direct l waits code handlers => .direct (l.blur loose) waits code handlers
  | .memo l cell w => .memo (l.blur loose) cell (w.blur loose)
  | .memoRefresh l cell w => .memoRefresh (l.blur loose) cell (w.blur loose)
  | .memoReload l cell w => .memoReload (l.blur loose) cell (w.blur loose)
  | .openArray => .openArray
  | .closeArray => .closeArray
  | .openModule name => .openModule name
  | .closeModule => .closeModule
  | .remote l client runtime module => .remote (l.blur loose) client runtime module

/-- `Word.blur` of every entry, each without its own location. -/
def Word.blurBody (loose : Bool) : List (Word × Location) → List (Word × Location)
  | [] => []
  | (w, l) :: rest => (w.blur loose, l.blur loose) :: Word.blurBody loose rest
end

theorem Location.blur_false (l : Location) : l.blur false = l := rfl

theorem WordLabel.blur_false (l : WordLabel) : l.blur false = l := by
  obtain ⟨_, _, _, _, _, location⟩ := l
  cases location with
  | none => rfl
  | some l => rfl

/-- Labels that are the same but for the location have one name. -/
theorem WordLabel.name_eq_of_blur {l l' : WordLabel} (h : l.blur loose = l'.blur loose) :
    l.name = l'.name := by
  have hname := congrArg WordLabel.name h
  exact hname

/-- Labels that are the same but for the location have one home. -/
theorem WordLabel.home_eq_of_blur {l l' : WordLabel} (h : l.blur loose = l'.blur loose) :
    l.home = l'.home := by
  have hhome := congrArg WordLabel.home h
  exact hhome

namespace Word

mutual
/-- Where no place may differ nothing is left out. -/
theorem blur_false (w : Word) : w.blur false = w := by
  cases w with
  | definition l body => rw [blur, WordLabel.blur_false, blurBody_false body]
  | memo l cell w | memoRefresh l cell w | memoReload l cell w =>
    rw [blur, WordLabel.blur_false, blur_false w]
  | constant l | native l | direct l | remote l => rw [blur, WordLabel.blur_false]
  | openArray | closeArray | openModule | closeModule => rw [blur]

@[inherit_doc blur_false]
theorem blurBody_false (body : List (Word × Location)) : blurBody false body = body := by
  cases body with
  | nil => rw [blurBody]
  | cons entry rest =>
    obtain ⟨w, l⟩ := entry
    rw [blurBody, blur_false w, blurBody_false rest, Location.blur_false]
end

theorem label_blur (w : Word) : (w.blur loose).label = w.label.blur loose := by
  cases w <;> rw [blur] <;> rfl

@[simp] theorem name_blur (w : Word) : (w.blur loose).name = w.name := by
  unfold name
  rw [label_blur]
  rfl

@[simp] theorem id_blur (w : Word) : (w.blur loose).label.id = w.label.id := by
  rw [label_blur]
  rfl

@[simp] theorem qualifiedName_blur (w : Word) :
    (w.blur loose).qualifiedName = w.qualifiedName := by
  unfold qualifiedName
  rw [label_blur, name_blur]
  rfl

@[simp] theorem isProfiled_blur (w : Word) : (w.blur loose).isProfiled = w.isProfiled := by
  cases w <;> rw [blur] <;> rfl

theorem blur_relabel (w : Word) (f : WordLabel → WordLabel)
    (hf : ∀ l : WordLabel, (f l).blur loose = f (l.blur loose)) :
    (w.relabel f).blur loose = (w.blur loose).relabel f := by
  cases w <;> simp [relabel, blur, hf]

mutual
/-- Words are as blind as they are without their places. -/
theorem blind_blur (w : Word) : (w.blur loose).Blind ↔ w.Blind := by
  cases w with
  | definition l body => rw [blur, Blind, Blind, blindBody_blur body]
  | memo l cell w | memoRefresh l cell w | memoReload l cell w =>
    rw [blur, Blind, Blind, blind_blur w]
  | native | direct => rw [blur, Blind, Blind]
  | constant | remote | openArray | closeArray | openModule | closeModule => simp [blur, Blind]

@[inherit_doc blind_blur]
theorem blindBody_blur (body : List (Word × Location)) :
    BlindBody (blurBody loose body) ↔ BlindBody body := by
  cases body with
  | nil => rw [blurBody]
  | cons entry rest =>
    obtain ⟨w, l⟩ := entry
    rw [blurBody, BlindBody, BlindBody, blind_blur w, blindBody_blur rest]
end

theorem blurBody_append (xs ys : List (Word × Location)) :
    blurBody loose (xs ++ ys) = blurBody loose xs ++ blurBody loose ys := by
  induction xs with
  | nil => rfl
  | cons x xs ih =>
    obtain ⟨w, l⟩ := x
    rw [List.cons_append, blurBody, blurBody, ih, List.cons_append]

/-- Words of the same kind with the same parts, but for places if those may differ. -/
inductive Alike (loose : Bool) : Word → Word → Prop
  | constant {l l' : WordLabel} (v : Val) (hl : l.blur loose = l'.blur loose) :
    Alike loose (.constant l v) (.constant l' v)
  | definition {l l' : WordLabel} {body body' : List (Word × Location)}
      (hl : l.blur loose = l'.blur loose) (hb : blurBody loose body = blurBody loose body') :
    Alike loose (.definition l body) (.definition l' body')
  | native {l l' : WordLabel} (inputs : Nat) (takesOptions waits : Bool)
      (code : List Val → Options → Native (Option Val)) (handlers : List Handler)
      (hl : l.blur loose = l'.blur loose) :
    Alike loose (.native l inputs takesOptions waits code handlers)
      (.native l' inputs takesOptions waits code handlers)
  | direct {l l' : WordLabel} (waits : Bool) (code : Native Unit) (handlers : List Handler)
      (hl : l.blur loose = l'.blur loose) :
    Alike loose (.direct l waits code handlers) (.direct l' waits code handlers)
  | memo {l l' : WordLabel} (cell : Nat) {v w : Word} (hl : l.blur loose = l'.blur loose)
      (hw : v.blur loose = w.blur loose) : Alike loose (.memo l cell v) (.memo l' cell w)
  | memoRefresh {l l' : WordLabel} (cell : Nat) {v w : Word} (hl : l.blur loose = l'.blur loose)
      (hw : v.blur loose = w.blur loose) :
    Alike loose (.memoRefresh l cell v) (.memoRefresh l' cell w)
  | memoReload {l l' : WordLabel} (cell : Nat) {v w : Word} (hl : l.blur loose = l'.blur loose)
      (hw : v.blur loose = w.blur loose) :
    Alike loose (.memoReload l cell v) (.memoReload l' cell w)
  | openArray : Alike loose .openArray .openArray
  | closeArray : Alike loose .closeArray .closeArray
  | openModule (name : String) : Alike loose (.openModule name) (.openModule name)
  | closeModule : Alike loose .closeModule .closeModule
  | remote {l l' : WordLabel} (client : Nat) (runtime module : String)
      (hl : l.blur loose = l'.blur loose) :
    Alike loose (.remote l client runtime module) (.remote l' client runtime module)

/-- What is the same without places is alike. -/
theorem alike_of_blur {v w : Word} (h : v.blur loose = w.blur loose) : Alike loose v w := by
  cases v <;> cases w <;> simp only [blur, constant.injEq, definition.injEq, native.injEq,
    direct.injEq, memo.injEq, memoRefresh.injEq, memoReload.injEq, openModule.injEq, remote.injEq,
    reduceCtorEq] at h
  case constant => obtain ⟨hl, rfl⟩ := h; exact .constant _ hl
  case definition => exact .definition h.1 h.2
  case native => obtain ⟨hl, rfl, rfl, rfl, rfl, rfl⟩ := h; exact .native _ _ _ _ _ hl
  case direct => obtain ⟨hl, rfl, rfl, rfl⟩ := h; exact .direct _ _ _ hl
  case memo => obtain ⟨hl, rfl, hw⟩ := h; exact .memo _ hl hw
  case memoRefresh => obtain ⟨hl, rfl, hw⟩ := h; exact .memoRefresh _ hl hw
  case memoReload => obtain ⟨hl, rfl, hw⟩ := h; exact .memoReload _ hl hw
  case openArray => exact .openArray
  case closeArray => exact .closeArray
  case openModule => obtain rfl := h; exact .openModule _
  case closeModule => exact .closeModule
  case remote => obtain ⟨hl, rfl, rfl, rfl⟩ := h; exact .remote _ _ _ hl

/-- An entry and the rest of a body that is the same without places. -/
theorem of_blurBody_cons {v : Word} {l : Location} {rest body : List (Word × Location)}
    (h : blurBody loose ((v, l) :: rest) = blurBody loose body) :
    ∃ w l' rest', body = (w, l') :: rest' ∧ v.blur loose = w.blur loose ∧
      l.blur loose = l'.blur loose ∧ blurBody loose rest = blurBody loose rest' := by
  cases body with
  | nil => simp [blurBody] at h
  | cons entry rest' =>
    obtain ⟨w, l'⟩ := entry
    simp only [blurBody, List.cons.injEq, Prod.mk.injEq] at h
    exact ⟨w, l', rest', rfl, h.1.1, h.1.2, h.2⟩

theorem of_blurBody_nil {body : List (Word × Location)}
    (h : blurBody loose [] = blurBody loose body) : body = [] := by
  cases body with
  | nil => rfl
  | cons entry rest =>
    obtain ⟨w, l⟩ := entry
    simp [blurBody] at h

end Word

/-! ## Modules -/

/-- The module without the locations that its words were read from, if these may differ. -/
def Module.blur (loose : Bool) (m : Module) : Module :=
  { m with words := m.words.map (Word.blur loose) }

namespace Module

theorem blur_false (m : Module) : m.blur false = m := by
  have h : m.words.map (Word.blur false) = m.words :=
    (List.map_congr_left fun w _ => w.blur_false).trans (List.map_id _)
  unfold blur
  rw [h]

@[simp] theorem isExported_blur (m : Module) (name : String) :
    (m.blur loose).isExported name = m.isExported name := rfl

@[simp] theorem cell?_blur (m : Module) (name : String) :
    (m.blur loose).cell? name = m.cell? name := rfl

@[simp] theorem imports_blur (m : Module) : (m.blur loose).imports = m.imports := rfl

theorem ownWord?_blur (m : Module) (name : String) :
    (m.blur loose).ownWord? name = (m.ownWord? name).map (Word.blur loose) := by
  unfold ownWord? blur
  rw [← List.map_reverse, List.find?_map]
  congr 2
  funext w
  simp

theorem blur_addWord (m : Module) (id : Nat) (w : Word) :
    (m.addWord id w).blur loose = (m.blur loose).addWord id (w.blur loose) := by
  have hw := w.blur_relabel (fun l => { l with id := some id, home := some m.name })
    fun _ => (rfl : WordLabel.blur loose _ = _)
  simp only [addWord, blur, List.map_append, List.map_singleton, hw]

theorem blind_blur (m : Module) : (m.blur loose).Blind ↔ m.Blind := by
  simp only [Module.Blind, blur, List.mem_map, forall_exists_index, and_imp,
    forall_apply_eq_imp_iff₂, Word.blind_blur]

end Module

/-! ## Looking words up -/

theorem exportedWord?_blur (modules : Array Module) (path : List Nat) (i : Nat) (name : String) :
    exportedWord? (modules.map (Module.blur loose)) path i name =
      (exportedWord? modules path i name).map (Word.blur loose) := by
  have hsize : (modules.map (Module.blur loose)).size = modules.size := Array.size_map
  fun_induction exportedWord? modules path i name with
  | case1 path i name hi hp m he ih =>
    have hm : (modules.map (Module.blur loose))[i] = m.blur loose := Array.getElem_map ..
    rw [exportedWord?, dif_pos (hsize ▸ hi), dif_pos hp, hm]
    simp only
    rw [Module.isExported_blur, if_pos he, Module.ownWord?_blur, Module.imports_blur, Option.map_or,
      List.map_findSome?]
    refine congrArg (Option.or _) (congrArg (List.findSome? · _) (funext fun imp => ?_))
    simp only [Function.comp_apply]
    cases imp.target? name with
    | none => rfl
    | some target => exact ih imp target
  | case2 path i name hi hp m he =>
    have hm : (modules.map (Module.blur loose))[i] = m.blur loose := Array.getElem_map ..
    rw [exportedWord?, dif_pos (hsize ▸ hi), dif_pos hp, hm]
    exact if_neg he
  | case3 path i name hi hp =>
    rw [exportedWord?, dif_pos (hsize ▸ hi), dif_neg hp]
    rfl
  | case4 path i name hi =>
    rw [exportedWord?, dif_neg (hsize ▸ hi)]
    rfl

theorem importedWord?_blur (modules : Array Module) (i : Nat) (imports : List Import)
    (name : String) :
    importedWord? (modules.map (Module.blur loose)) i imports name =
      (importedWord? modules i imports name).map (Word.blur loose) := by
  unfold importedWord?
  rw [List.map_findSome?]
  refine congrArg (List.findSome? · _) (funext fun imp => ?_)
  simp only [Function.comp_apply]
  cases imp.target? name with
  | none => rfl
  | some target => exact exportedWord?_blur modules [i] imp.module target

/-- The same is found under a name, but for its places. -/
theorem findIn?_blur (modules : Array Module) (i : Nat) (name : String) :
    findIn? (modules.map (Module.blur loose)) i name =
      (findIn? modules i name).map (Word.blur loose) := by
  unfold findIn?
  rw [Array.getElem?_map]
  cases modules[i]? with
  | none => rfl
  | some m =>
    simp only [Option.map_some, Module.ownWord?_blur, Module.cell?_blur, Module.imports_blur]
    cases m.ownWord? name with
    | some w => rfl
    | none =>
      cases m.cell? name with
      | some cell => simp [Word.blur, WordLabel.blur]
      | none => exact importedWord?_blur modules i m.imports name

end Wordstack
