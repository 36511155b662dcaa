import Wordstack.Proofs.Machine.Observed
import Wordstack.Proofs.Machine.Profile

/-!
# Profiles of runs

A run whose words are dispatched under the eyes of an observer that keeps a log, and what the
profile of an interpreter has to do with the log.

- **Events** (`RunEvent`): every dispatch, with what kind of word it is (`Word.kind`), and what
  native code does with the profile. A log is kept in the place of a profile (`Profile.log`), and
  its events are found again (`Profile.events`).
- **What counts** (`RunEvent.profiling`): dispatches of words that are neither literals nor
  brackets.
- **Logging machines** (`Observer.logging`), and profiles of histories and runs
  (`profiles_count_exactly`).
-/

namespace Wordstack

/-! ## Events -/

/-- The kinds of what is dispatched. -/
inductive DispatchKind where
  | literal
  | bracket
  | word

/-- The kind of a word. -/
def Word.kind : Word → DispatchKind
  | constant .. => .literal
  | openArray | closeArray | openModule _ | closeModule => .bracket
  | _ => .word

/-- What happens in a run that may have to do with the profile. -/
inductive RunEvent where
  | dispatched (name : String) (kind : DispatchKind)
  | started
  | stopped
  | stamped (label : String) (time : Binary64)

namespace RunEvent

/-- The character that stands for the kind of an event. -/
def tag : RunEvent → Char
  | dispatched _ .literal => 'l'
  | dispatched _ .bracket => 'b'
  | dispatched _ .word => 'w'
  | started => 's'
  | stopped => 'e'
  | stamped .. => 't'

/-- The name or the label of an event. -/
def text : RunEvent → String
  | dispatched name _ => name
  | started | stopped => ""
  | stamped label _ => label

/-- The time of an event, if it has one. -/
def time : RunEvent → Binary64
  | stamped _ time => time
  | _ => 0

/-- The note of an event. -/
def note (event : RunEvent) : String × Binary64 :=
  (String.ofList (event.tag :: event.text.toList), event.time)

/-- The event of a kind. -/
def tagged? (tag : Char) (text : String) (time : Binary64) : Option RunEvent :=
  match tag with
  | 'l' => some (dispatched text .literal)
  | 'b' => some (dispatched text .bracket)
  | 'w' => some (dispatched text .word)
  | 's' => some started
  | 'e' => some stopped
  | 't' => some (stamped text time)
  | _ => none

/-- The event that is noted. -/
def ofNote? (note : String × Binary64) : Option RunEvent :=
  match note.1.toList with
  | tag :: text => tagged? tag (String.ofList text) note.2
  | [] => none

theorem ofNote?_note (event : RunEvent) : ofNote? event.note = some event := by
  rw [ofNote?, note]
  simp only [String.toList_ofList, String.ofList_toList]
  cases event with
  | dispatched name kind => cases kind <;> rfl
  | started | stopped | stamped _ _ => rfl

/-- What an event has to do with the profile: literals and brackets are not counted. -/
def profiling? : RunEvent → Option ProfileEvent
  | dispatched name .word => some (.count name)
  | dispatched _ .literal | dispatched _ .bracket => none
  | started => some .start
  | stopped => some .stop
  | stamped label time => some (.stamp label time)

/-- What events have to do with the profile. -/
def profiling (events : List RunEvent) : List ProfileEvent := events.filterMap profiling?

end RunEvent

/-! ## Logs -/

namespace Profile

/-- Notes an event. -/
def log (p : Profile) (event : RunEvent) : Profile := { p with stamps := p.stamps ++ [event.note] }

/-- The events that are noted. -/
def events (p : Profile) : List RunEvent := p.stamps.filterMap RunEvent.ofNote?

@[simp] theorem events_log (p : Profile) (event : RunEvent) :
    (p.log event).events = p.events ++ [event] := by
  rw [events, log, List.filterMap_append, List.filterMap_cons_some (RunEvent.ofNote?_note event)]
  rfl

/-- The profile after a history and the events of a log. -/
def afterLog (before : List ProfileEvent) (p : Profile) : Profile :=
  replay {} (before ++ RunEvent.profiling p.events)

variable {before : List ProfileEvent}

theorem afterLog_log {event : RunEvent} {e : ProfileEvent} (h : event.profiling? = some e)
    (p : Profile) : afterLog before (p.log event) = (afterLog before p).apply e := by
  rw [afterLog, events_log, RunEvent.profiling, List.filterMap_append,
    List.filterMap_cons_some h, List.filterMap_nil, ← List.append_assoc, replay_concat]
  rfl

theorem afterLog_log_none {event : RunEvent} (h : event.profiling? = none) (p : Profile) :
    afterLog before (p.log event) = afterLog before p := by
  rw [afterLog, events_log, RunEvent.profiling, List.filterMap_append,
    List.filterMap_cons_none h, List.filterMap_nil, List.append_nil]
  rfl

end Profile

/-! ## Logging machines -/

namespace Observer

/-- The observer that keeps a log; what happened before the log is known. -/
def logging (before : List ProfileEvent) : Observer where
  dispatch w p := p.log (.dispatched w.qualifiedName w.kind)
  start p := p.log .started
  stop p := p.log .stopped
  stamp label time p := p.log (.stamped label time)
  record p := (Profile.afterLog before p).toRecord

theorem logging_reflects (before : List ProfileEvent) :
    (logging before).Reflects (Profile.afterLog before) where
  dispatch w p := by
    have hcount : ∀ {name}, Profile.afterLog before (p.log (.dispatched name .word)) =
        (Profile.afterLog before p).count name := fun {name} =>
      Profile.afterLog_log (e := .count name) rfl p
    cases w with
    | constant | openArray | closeArray | openModule | closeModule =>
      exact Profile.afterLog_log_none rfl p
    | _ => exact hcount
  start := Profile.afterLog_log (e := .start) rfl
  stop := Profile.afterLog_log (e := .stop) rfl
  stamp label time := Profile.afterLog_log (e := .stamp label time) rfl
  record _ := rfl

end Observer

/-- Profiles count exactly. After any starts, stops, counts and timestamps, the histogram has each
name that was counted in the window once, with the number of its counts; the highest counts come
first, and equal ones in the order in which the names were counted first. The timestamps are those
since the latest start in order, each with the time since the one before.

After any call of an interpreter, whatever was done with its profile before, what has been done with
the profile besides is to count the dispatches in the run of words that are neither literals nor
brackets, and what the code has asked for. -/
theorem profiles_count_exactly :
    (∀ events : List ProfileEvent, let p := Profile.replay {} events
      let names := ProfileEvent.counted events
      let stamps := ProfileEvent.stamped events
      (p.histogram.map Prod.fst).Nodup ∧
      (∀ name n, (name, n) ∈ p.histogram ↔ n = names.count name ∧ 0 < n) ∧
      (p.histogram.Pairwise fun a b =>
        b.2 ≤ a.2 ∧ (a.2 = b.2 → names.idxOf a.1 < names.idxOf b.1)) ∧
      p.toRecord = .record [
        ("word_counts", .array (p.histogram.map fun c =>
          .record [("word", .str c.1), ("count", .int c.2)])),
        ("timestamps", .array (stamps.mapIdx (Profile.stampRecord stamps)))]) ∧
    ∀ (before : List ProfileEvent) (depth : Nat) (c : Call) (i : Interp) (s : Store),
      let o := Observer.logging before
      c.task (nested depth) { i with profile := Profile.replay {} before } s =
        (o.call (o.nested depth) c { i with profile := {} } s).mapProfile fun log =>
          Profile.replay {} (before ++ RunEvent.profiling log.events) := by
  refine ⟨fun events => ⟨Profile.nodup_histogram events, fun _ _ => Profile.mem_histogram events,
    Profile.pairwise_histogram events, Profile.toRecord_replay events⟩,
    fun before depth c i s => ?_⟩
  have hstart : { i with profile := Profile.replay {} before } =
      ({ i with profile := {} } : Interp).mapProfile (Profile.afterLog before) := by
    rw [Interp.mapProfile, Profile.afterLog]
    simp [Profile.events, RunEvent.profiling]
  show c.task (nested depth) { i with profile := Profile.replay {} before } s = _
  rw [hstart]
  exact (Observer.logging_reflects before).call depth c _ s

end Wordstack
