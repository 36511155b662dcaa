import Wordstack.Proofs.Machine.Calls
import Wordstack.Proofs.Text.Spans

/-!
# A record of the sources that are run

A machine that does what another one does, and takes notes of the sources of modules: when one
begins to be run, and how its run ends.

- **Events** (`SourceEvent`), and **records** of them. Notes are kept with the requests sent
  (`Store.note`), which no code reads. They are found again (`eventsOf`), since requests are sent
  under other URLs (`eventsOf_sent`).
- **Recording machines** (`Nested.recording`, `recorded`). A run in the name of a module is one of
  the source of the module in whose scope it is.
- **In progress** (`inProgress`): the modules whose sources have begun to be run, and not ended.
- **Orderly records** (`Orderly`): no source begins to be run while it is run, or after it was run
  to its end, or when the module is ready from the start; the run that ends is the latest one in
  progress. The source of no module is run to its end twice (`Orderly.count_completed_le`).
-/

namespace Wordstack

/-! ## Events -/

/-- What happens to the source of a module. -/
inductive SourceEvent where
  | begun (m : Nat)
  | completed (m : Nat)
  | failed (m : Nat)
deriving DecidableEq

namespace SourceEvent

/-- How the run of a source has ended. -/
def ended (m : Nat) : Except Fault Unit → SourceEvent
  | .ok _ => completed m
  | .error _ => failed m

/-- The URL that stands for the kind of an event. -/
def tag : SourceEvent → String
  | begun _ => "begun"
  | completed _ => "completed"
  | failed _ => "failed"

/-- The module of an event. -/
def subject : SourceEvent → Nat
  | begun m | completed m | failed m => m

/-- The note of an event. -/
def note (event : SourceEvent) : SentRequest := ⟨event.tag, .str (toString (event.subject : Int))⟩

/-- The event of a kind. -/
def tagged? (tag : String) (m : Nat) : Option SourceEvent :=
  if tag = "begun" then some (begun m)
  else if tag = "completed" then some (completed m)
  else if tag = "failed" then some (failed m)
  else none

/-- The event that is noted, if it is a note. -/
def ofNote? (q : SentRequest) : Option SourceEvent :=
  match q.body with
  | .str text => tagged? q.url (Text.toInt text.toList).toNat
  | _ => none

theorem ofNote?_note (event : SourceEvent) : ofNote? event.note = some event := by
  have hm : (Text.toInt (toString (event.subject : Int)).toList).toNat = event.subject := by
    rw [Text.toInt_toString]
    exact Int.toNat_natCast _
  show tagged? event.tag _ = some event
  rw [hm]
  cases event <;> rfl

/-- The URL of a request names a method, so it stands for no event. -/
theorem ofNote?_sent (url method : String) (body : Json) :
    ofNote? ⟨url ++ "/rpc/" ++ method, body⟩ = none := by
  have hslash : '/' ∈ (url ++ "/rpc/" ++ method).toList := by
    rw [String.toList_append, String.toList_append]
    exact List.mem_append_left _ (List.mem_append_right _ (by decide))
  have hne : ∀ tag : String, '/' ∉ tag.toList → url ++ "/rpc/" ++ method ≠ tag :=
    fun tag htag heq => htag (heq ▸ hslash)
  have htagged : ∀ m, tagged? (url ++ "/rpc/" ++ method) m = none := by
    intro m
    unfold tagged?
    rw [if_neg (hne _ (by decide)), if_neg (hne _ (by decide)), if_neg (hne _ (by decide))]
  cases body with
  | str text => exact htagged _
  | _ => rfl

end SourceEvent

/-- The events that are noted among requests, the latest first. -/
def eventsOf (record : List SentRequest) : List SourceEvent := record.filterMap SourceEvent.ofNote?

@[simp] theorem eventsOf_note (event : SourceEvent) (record : List SentRequest) :
    eventsOf (event.note :: record) = event :: eventsOf record :=
  List.filterMap_cons_some (SourceEvent.ofNote?_note event)

theorem eventsOf_sent (url method : String) (body : Json) (record : List SentRequest) :
    eventsOf (⟨url ++ "/rpc/" ++ method, body⟩ :: record) = eventsOf record :=
  List.filterMap_cons_none (SourceEvent.ofNote?_sent url method body)

/-! ## Recording machines -/

/-- The store with other requests sent. -/
def Store.resent (s : Store) (sent : List SentRequest) : Store := { s with sent }

/-- Notes an event. -/
def Store.note (s : Store) (event : SourceEvent) : Store := s.resent (event.note :: s.sent)

/-- Notes how the run of a module's source has ended, and ends so. -/
def Task.noteEnd (m : Nat) (outcome : Except Fault Unit) : Task Unit := do
  Task.updateStore fun s => s.note (.ended m outcome)
  Task.lift outcome

/-- Nested work that takes notes of the sources of modules. -/
def Nested.recording (e : Nested) : Nested where
  run source origin :=
    match origin.source with
    | none => e.run source origin
    | some _ => do
      let m ← Task.view fun i _ => i.current?.getD 0
      Task.updateStore fun s => s.note (.begun m)
      let outcome ← Task.attempt (e.run source origin)
      Task.noteEnd m outcome
  send := e.send

/-- Runs and requests that are nested at most `depth` deep, with notes of the sources of modules. -/
def recorded : Nat → Nested
  | 0 => nested 0
  | depth + 1 =>
    Nested.recording
      ⟨fun source origin => runSource (recorded depth) source origin,
       fun url method body => Network.send (recorded depth) url method body⟩

section Recording

variable {e : Nested} {source : String} {origin : Location} {i : Interp} {s : Store} {m : Nat}

theorem Nested.recording_run_of_none (h : origin.source = none) :
    e.recording.run source origin = e.run source origin := by
  unfold recording
  simp only [h]

/-- The run of a source between its notes. -/
theorem Nested.recording_run_apply (h : origin.source.isSome) (hm : i.current? = some m) :
    e.recording.run source origin i s =
      (e.run source origin i (s.note (.begun m))).attempt.bind (Task.noteEnd m) := by
  obtain ⟨name, hname⟩ := Option.isSome_iff_exists.mp h
  unfold recording
  simp only [hname]
  rw [Task.bind_apply, Task.view, Step.bind, hm]
  rfl

end Recording

/-! ## Orderly records -/

/-- The modules whose sources have begun to be run and not ended, the latest first. -/
def inProgress : List SourceEvent → List Nat
  | [] => []
  | .begun m :: events => m :: inProgress events
  | .completed m :: events | .failed m :: events => (inProgress events).erase m

/-- Events in an order that is right, where the modules in `ready` are ready from the start, and the
sources of those in `busy` are being run. -/
inductive Orderly (ready : Nat → Prop) : List SourceEvent → List Nat → Prop
  | start : Orderly ready [] []
  | begun {m : Nat} {events : List SourceEvent} {busy : List Nat} (h : Orderly ready events busy)
      (hbusy : m ∉ busy) (hready : ¬ready m) (hdone : .completed m ∉ events) :
      Orderly ready (.begun m :: events) (m :: busy)
  | completed {m : Nat} {events : List SourceEvent} {busy : List Nat}
      (h : Orderly ready events (m :: busy)) : Orderly ready (.completed m :: events) busy
  | failed {m : Nat} {events : List SourceEvent} {busy : List Nat}
      (h : Orderly ready events (m :: busy)) : Orderly ready (.failed m :: events) busy

namespace Orderly

variable {ready : Nat → Prop} {events later : List SourceEvent} {busy : List Nat} {m : Nat}

theorem nodup (h : Orderly ready events busy) : busy.Nodup := by
  induction h with
  | start => exact List.nodup_nil
  | begun _ hbusy _ _ ih => exact List.nodup_cons.mpr ⟨hbusy, ih⟩
  | completed _ ih => exact (List.nodup_cons.mp ih).2
  | failed _ ih => exact (List.nodup_cons.mp ih).2

theorem inProgress_eq (h : Orderly ready events busy) : inProgress events = busy := by
  induction h with
  | start => rfl
  | begun _ _ _ _ ih => rw [inProgress, ih]
  | completed _ ih => rw [inProgress, ih, List.erase_cons_head]
  | failed _ ih => rw [inProgress, ih, List.erase_cons_head]

/-- A source that is being run was not ready from the start, nor run to its end before. -/
theorem of_mem_busy (h : Orderly ready events busy) (hm : m ∈ busy) :
    ¬ready m ∧ .completed m ∉ events := by
  induction h with
  | start => cases hm
  | begun _ _ hready hdone ih =>
    rcases List.mem_cons.mp hm with rfl | hm
    · exact ⟨hready, by simpa using hdone⟩
    · obtain ⟨hold, hnot⟩ := ih hm
      exact ⟨hold, by simpa using hnot⟩
  | @completed n _ _ h ih =>
    obtain ⟨hold, hnot⟩ := ih (List.mem_cons_of_mem _ hm)
    have hne : m ≠ n := fun heq => (List.nodup_cons.mp h.nodup).1 (heq ▸ hm)
    exact ⟨hold, by simp [hne, hnot]⟩
  | failed _ ih =>
    obtain ⟨hold, hnot⟩ := ih (List.mem_cons_of_mem _ hm)
    exact ⟨hold, by simpa using hnot⟩

/-- What was in order at the end was so at any time before. -/
theorem of_append (h : Orderly ready (later ++ events) busy) :
    ∃ held, Orderly ready events held := by
  induction later generalizing busy with
  | nil => exact ⟨busy, h⟩
  | cons event later ih =>
    cases h with
    | begun h => exact ih h
    | completed h => exact ih h
    | failed h => exact ih h

/-- The source of a module begins to be run only when it is not being run, was never run to its
end, and the module was not ready from the start. -/
theorem of_begun (h : Orderly ready (later ++ .begun m :: events) busy) :
    m ∉ inProgress events ∧ .completed m ∉ events ∧ ¬ready m := by
  obtain ⟨held, h⟩ := h.of_append
  cases h with
  | begun h hbusy hready hdone => exact ⟨h.inProgress_eq ▸ hbusy, hdone, hready⟩

theorem count_completed_le (h : Orderly ready events busy) (m : Nat) :
    events.count (.completed m) ≤ 1 := by
  induction h with
  | start => exact Nat.zero_le 1
  | begun _ _ _ _ ih => simpa using ih
  | @completed n _ _ h ih =>
    by_cases hm : n = m
    · subst hm
      have hnone := List.count_eq_zero.mpr (h.of_mem_busy List.mem_cons_self).2
      rw [List.count_cons_self]
      omega
    · rw [List.count_cons_of_ne (by simpa using hm)]
      exact ih
  | failed _ ih => simpa using ih

end Orderly

end Wordstack
