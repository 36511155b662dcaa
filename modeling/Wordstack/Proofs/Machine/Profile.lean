import Mathlib.Data.List.DropRight
import Wordstack.Machine.Profile

/-!
# Histories of profiles

What a profile holds after any starts, stops, counts and timestamps, in any order.

- **Stable sorting** (`pairwise_mergeSort_stable`): what is equal for the sort keeps its order.
- **Events** (`ProfileEvent`) and **what they leave** (`Profile.replay`).
- **Windows** (`ProfileEvent.sinceStart`, `ProfileEvent.counted`, `ProfileEvent.stamped`): what is
  counted and stamped after the latest start, the counts up to the first stop.
- **Tallies** (`tally`): names in the order in which they occur first, each with how often it does.
- **Contents** (`Profile.counts_replay`, `Profile.stamps_replay`), by induction on the events from
  the end, and **results** (`Profile.pairwise_histogram`, `Profile.toRecord_replay`).
-/

namespace Wordstack

/-! ## Stable sorting -/

section Sorting

open List

variable {α : Type} {l : List α} {a b : α}

theorem pair_sublist_or (ha : a ∈ l) (hb : b ∈ l) (hne : a ≠ b) : [a, b] <+ l ∨ [b, a] <+ l := by
  induction l with
  | nil => cases ha
  | cons c l ih =>
    by_cases hac : a = c
    · have hmem : b ∈ l := (mem_cons.mp hb).resolve_left fun h => hne (hac.trans h.symm)
      exact .inl (hac ▸ (singleton_sublist.mpr hmem).cons_cons a)
    · have hmem : a ∈ l := (mem_cons.mp ha).resolve_left hac
      by_cases hbc : b = c
      · exact .inr (hbc ▸ (singleton_sublist.mpr hmem).cons_cons b)
      · exact (ih hmem ((mem_cons.mp hb).resolve_left hbc)).imp (·.cons c) (·.cons c)

theorem not_pair_sublist_swap (h : l.Nodup) (hab : [a, b] <+ l) : ¬ [b, a] <+ l := by
  induction l with
  | nil => cases hab
  | cons c l ih =>
    obtain ⟨hc, hl⟩ := nodup_cons.mp h
    intro hba
    cases hab with
    | cons _ hab =>
      cases hba with
      | cons _ hba => exact ih hl hab hba
      | cons_cons _ ha => exact hc (hab.subset (mem_cons_of_mem _ mem_cons_self))
    | cons_cons _ hb =>
      cases hba with
      | cons _ hba => exact hc (hba.subset (mem_cons_of_mem _ mem_cons_self))
      | cons_cons _ ha => exact hc (ha.subset mem_cons_self)

/-- Sorting keeps the order of what is equal for the sort. -/
theorem pairwise_mergeSort_stable {R : α → α → Prop} {le : α → α → Bool} (h : l.Pairwise R)
    (hl : l.Nodup) (htrans : ∀ a b c, le a b = true → le b c = true → le a c = true)
    (htotal : ∀ a b, (le a b || le b a) = true) :
    (l.mergeSort le).Pairwise fun a b => le a b = true ∧ (le b a = true → R a b) := by
  have hsorted : ∀ {a b}, [a, b] <+ l.mergeSort le → le a b = true :=
    pairwise_iff_forall_sublist.mp (pairwise_mergeSort htrans htotal l)
  have hnodup : (l.mergeSort le).Nodup := (mergeSort_perm l le).nodup_iff.mpr hl
  refine pairwise_iff_forall_sublist.mpr fun {a b} hab => ⟨hsorted hab, fun hba => ?_⟩
  have hmem : ∀ c ∈ [a, b], c ∈ l := fun c hc => (mergeSort_perm l le).subset (hab.subset hc)
  have hne : a ≠ b := by
    have := hnodup.sublist hab
    simpa using this
  rcases pair_sublist_or (hmem a mem_cons_self) (hmem b (by simp)) hne with hl | hl
  · exact pairwise_iff_forall_sublist.mp h hl
  · exact absurd (pair_sublist_mergeSort htrans htotal hba hl) (not_pair_sublist_swap hnodup hab)

end Sorting

/-! ## Events -/

/-- What can be done with a profile. -/
inductive ProfileEvent where
  | start
  | stop
  | count (name : String)
  | stamp (label : String) (time : Binary64)

/-- The profile after one more event. -/
def Profile.apply (p : Profile) : ProfileEvent → Profile
  | .start => p.start
  | .stop => p.stop
  | .count name => p.count name
  | .stamp label time => p.stamp label time

/-- The profile after events in order. -/
def Profile.replay (p : Profile) (events : List ProfileEvent) : Profile := events.foldl apply p

theorem Profile.replay_append (p : Profile) (events more : List ProfileEvent) :
    p.replay (events ++ more) = (p.replay events).replay more :=
  List.foldl_append ..

/-! ## Windows -/

namespace ProfileEvent

def isStart : ProfileEvent → Bool
  | start => true
  | _ => false

def isStop : ProfileEvent → Bool
  | stop => true
  | _ => false

/-- The name that is counted. -/
def counted? : ProfileEvent → Option String
  | count name => some name
  | _ => none

/-- The timestamp that is taken. -/
def stamped? : ProfileEvent → Option (String × Binary64)
  | stamp label time => some (label, time)
  | _ => none

/-- The events after the latest start, all of them if there is none. -/
def sinceStart (events : List ProfileEvent) : List ProfileEvent :=
  events.rtakeWhile fun e => !e.isStart

/-- The events between the latest start and the first stop after it; none before the first start. -/
def window (events : List ProfileEvent) : List ProfileEvent :=
  if events.any isStart then (sinceStart events).takeWhile fun e => !e.isStop else []

/-- The names that are counted in the window. -/
def counted (events : List ProfileEvent) : List String := (window events).filterMap counted?

/-- The timestamps that are taken after the latest start. -/
def stamped (events : List ProfileEvent) : List (String × Binary64) :=
  (sinceStart events).filterMap stamped?

/-- Whether names are counted after the events. -/
def isActive (events : List ProfileEvent) : Bool :=
  events.any isStart && (sinceStart events).all fun e => !e.isStop

variable {events : List ProfileEvent} {e : ProfileEvent}

/-! Everything is said about one more event at the end. -/

theorem any_isStart_concat :
    (events ++ [e]).any isStart = (events.any isStart || e.isStart) := by
  rw [List.any_append, List.any_cons, List.any_nil, Bool.or_false]

theorem sinceStart_concat :
    sinceStart (events ++ [e]) = if e.isStart then [] else sinceStart events ++ [e] := by
  cases h : e.isStart with
  | true => exact List.rtakeWhile_concat_neg _ _ _ (by simp [h])
  | false => exact List.rtakeWhile_concat_pos _ _ _ (by simp [h])

theorem isActive_concat :
    isActive (events ++ [e]) = (e.isStart || isActive events && !e.isStop) := by
  rw [isActive, any_isStart_concat, sinceStart_concat]
  cases h : e.isStart with
  | true => simp
  | false => simp [isActive, Bool.and_assoc]

theorem takeWhile_concat {α : Type} (p : α → Bool) (xs : List α) (x : α) :
    (xs ++ [x]).takeWhile p = xs.takeWhile p ++ if xs.all p && p x then [x] else [] := by
  induction xs with
  | nil => cases h : p x <;> simp [h]
  | cons y ys ih => cases h : p y <;> simp [h, ih]

theorem window_concat : window (events ++ [e]) =
    if e.isStart then []
    else window events ++ if isActive events && !e.isStop then [e] else [] := by
  rw [window, any_isStart_concat, sinceStart_concat, window, isActive]
  cases e.isStart with
  | true => simp
  | false =>
    cases events.any isStart with
    | true => simp [takeWhile_concat]
    | false => simp

theorem counted_concat : counted (events ++ [e]) =
    if e.isStart then []
    else counted events ++ if isActive events then e.counted?.toList else [] := by
  rw [counted, window_concat]
  cases isActive events with
  | true => cases e <;> simp [isStart, isStop, counted?, counted]
  | false => cases e <;> simp [isStart, isStop, counted]

theorem stamped_concat : stamped (events ++ [e]) =
    if e.isStart then [] else stamped events ++ e.stamped?.toList := by
  rw [stamped, sinceStart_concat]
  cases e <;> simp [isStart, stamped?, stamped, List.filterMap_cons]

end ProfileEvent

/-! ## Tallies -/

/-- Names in the order in which they occur first, each with how often it occurs. -/
def tally (names : List String) : List (String × Nat) :=
  names.eraseDups.map fun name => (name, names.count name)

variable {names : List String} {name : String}

theorem eraseDups_concat (names : List String) (name : String) :
    (names ++ [name]).eraseDups =
      names.eraseDups ++ if name ∈ names then [] else [name] := by
  rw [List.eraseDups_append]
  by_cases h : name ∈ names
  · simp [List.removeAll, h]
  · simp [List.removeAll, h, List.eraseDups_cons]

theorem pairwise_eraseDups (names : List String) :
    names.eraseDups.Pairwise fun a b => names.idxOf a < names.idxOf b := by
  induction names using List.reverseRecOn with
  | nil => exact .nil
  | append_singleton names name ih =>
    have hold : ∀ a ∈ names, (names ++ [name]).idxOf a = names.idxOf a := fun a ha =>
      by rw [List.idxOf_append, if_pos ha]
    have hnames : names.eraseDups.Pairwise fun a b =>
        (names ++ [name]).idxOf a < (names ++ [name]).idxOf b :=
      ih.imp_of_mem fun ha hb h => by
        rwa [hold _ (List.mem_eraseDups.mp ha), hold _ (List.mem_eraseDups.mp hb)]
    rw [eraseDups_concat]
    split
    case isTrue => rwa [List.append_nil]
    case isFalse hname =>
      refine List.pairwise_append.mpr ⟨hnames, List.pairwise_singleton .., fun a ha b hb => ?_⟩
      obtain rfl := List.mem_singleton.mp hb
      have hmem := List.mem_eraseDups.mp ha
      rw [hold a hmem, List.idxOf_append, if_neg hname]
      exact Nat.lt_of_lt_of_le (List.idxOf_lt_length_of_mem hmem) (Nat.le_add_left ..)

theorem nodup_eraseDups (names : List String) : names.eraseDups.Nodup :=
  (pairwise_eraseDups names).imp fun h heq => absurd (heq ▸ h) (Nat.lt_irrefl _)

theorem mem_tally {n : Nat} : (name, n) ∈ tally names ↔ n = names.count name ∧ 0 < n := by
  simp only [tally, List.mem_map, List.mem_eraseDups, Prod.mk.injEq]
  constructor
  · rintro ⟨k, hk, rfl, rfl⟩
    exact ⟨rfl, List.count_pos_iff.mpr hk⟩
  · rintro ⟨rfl, hpos⟩
    exact ⟨name, List.count_pos_iff.mp hpos, rfl, rfl⟩

theorem map_fst_tally (names : List String) : (tally names).map Prod.fst = names.eraseDups := by
  rw [tally, List.map_map]
  exact List.map_id _

/-- One more for a name among names with their counts. -/
theorem increment_map (name : String) {keys : List String} (hkeys : keys.Nodup) (f : String → Nat) :
    Profile.increment name (keys.map fun k => (k, f k)) =
      keys.map (fun k => (k, if k = name then f k + 1 else f k)) ++
        if name ∈ keys then [] else [(name, 1)] := by
  induction keys with
  | nil => rfl
  | cons k keys ih =>
    obtain ⟨hk, hkeys⟩ := List.nodup_cons.mp hkeys
    rw [List.map_cons, Profile.increment]
    by_cases heq : k = name
    · subst heq
      have hrest : ∀ k' ∈ keys, (k', f k') = (k', if k' = k then f k' + 1 else f k') :=
        fun k' hmem => by rw [if_neg (ne_of_mem_of_not_mem hmem hk)]
      simp [List.map_congr_left hrest]
    · simp [heq, Ne.symm heq, ih hkeys]

theorem increment_tally (names : List String) (name : String) :
    Profile.increment name (tally names) = tally (names ++ [name]) := by
  rw [tally, increment_map name (nodup_eraseDups names), tally, eraseDups_concat, List.map_append]
  congr 1
  · refine List.map_congr_left fun k _ => ?_
    rw [List.count_append, List.count_singleton]
    by_cases h : k = name
    · simp [h]
    · simp [h, Ne.symm h]
  · by_cases h : name ∈ names
    · simp [h]
    · simp [h, List.count_eq_zero.mpr h]

/-! ## Contents -/

namespace Profile

open ProfileEvent

variable (events : List ProfileEvent)

theorem replay_concat (p : Profile) (e : ProfileEvent) :
    p.replay (events ++ [e]) = (p.replay events).apply e :=
  p.replay_append events [e]

theorem isOpen_replay : (replay {} events).isOpen = isActive events := by
  induction events using List.reverseRecOn with
  | nil => rfl
  | append_singleton events e ih =>
    rw [replay_concat, isActive_concat, ← ih]
    cases e with
    | start => rfl
    | stop => simp [apply, Profile.stop, isStart, isStop]
    | count name =>
      simp only [apply, Profile.count, isStart, isStop]
      split <;> simp [*]
    | stamp label time => simp [apply, Profile.stamp, isStart, isStop]

theorem counts_replay : (replay {} events).counts = tally (counted events) := by
  induction events using List.reverseRecOn with
  | nil => rfl
  | append_singleton events e ih =>
    rw [replay_concat, counted_concat]
    cases e with
    | start => rfl
    | stop => simpa [apply, Profile.stop, isStart, counted?] using ih
    | count name =>
      simp only [apply, Profile.count, isOpen_replay, isStart]
      cases isActive events with
      | true => simp [ih, increment_tally, counted?]
      | false => simpa using ih
    | stamp label time => simpa [apply, Profile.stamp, isStart, counted?] using ih

theorem stamps_replay : (replay {} events).stamps = stamped events := by
  induction events using List.reverseRecOn with
  | nil => rfl
  | append_singleton events e ih =>
    rw [replay_concat, stamped_concat]
    cases e with
    | start => rfl
    | stop => simpa [apply, Profile.stop, isStart, stamped?] using ih
    | count name =>
      simp only [apply, Profile.count]
      split <;> simpa [isStart, stamped?] using ih
    | stamp label time => simp [apply, Profile.stamp, isStart, ih, stamped?]

/-! ## Results -/

theorem mem_histogram {name : String} {n : Nat} :
    (name, n) ∈ (replay {} events).histogram ↔ n = (counted events).count name ∧ 0 < n := by
  rw [histogram, (List.mergeSort_perm _ _).mem_iff, counts_replay, mem_tally]

theorem nodup_histogram : ((replay {} events).histogram.map Prod.fst).Nodup := by
  rw [histogram, ((List.mergeSort_perm _ _).map _).nodup_iff, counts_replay, map_fst_tally]
  exact nodup_eraseDups _

/-- The highest counts come first, and among equal ones what was counted first. -/
theorem pairwise_histogram : (replay {} events).histogram.Pairwise fun a b => b.2 ≤ a.2 ∧
    (a.2 = b.2 → (counted events).idxOf a.1 < (counted events).idxOf b.1) := by
  have hfirst : (tally (counted events)).Pairwise fun a b =>
      (counted events).idxOf a.1 < (counted events).idxOf b.1 :=
    List.pairwise_map.mpr (pairwise_eraseDups _)
  have hnodup : (tally (counted events)).Nodup :=
    hfirst.imp fun h heq => absurd (heq ▸ h) (Nat.lt_irrefl _)
  rw [histogram, counts_replay]
  refine (pairwise_mergeSort_stable hfirst hnodup (fun a b c hab hbc => ?_) fun a b => ?_).imp
    fun h => ⟨of_decide_eq_true h.1, fun heq => h.2 (decide_eq_true (Nat.le_of_eq heq))⟩
  · exact decide_eq_true (Nat.le_trans (of_decide_eq_true hbc) (of_decide_eq_true hab))
  · simpa using Nat.le_total b.2 a.2

/-- The time since the timestamp before the one at an index, zero for the first. -/
def delta (stamps : List (String × Binary64)) (time : Binary64) : Nat → Binary64
  | 0 => 0
  | k + 1 => (stamps[k]?.map fun before => time.sub before.2).getD 0

/-- The record of the timestamp at an index. -/
def stampRecord (stamps : List (String × Binary64)) (k : Nat) (stamp : String × Binary64) : Val :=
  .record [("label", .str stamp.1), ("time_ms", .float stamp.2),
    ("delta", .float (delta stamps stamp.2 k))]

theorem delta_append (earlier stamps : List (String × Binary64)) (time : Binary64) :
    delta (earlier ++ stamps) time earlier.length =
      ((earlier.getLast?.map Prod.snd).map time.sub).getD 0 := by
  obtain rfl | ⟨earlier, last, rfl⟩ := earlier.eq_nil_or_concat'
  · rfl
  · simp [delta]

theorem stampRecords_cons (before : Option Binary64) (label : String) (time : Binary64)
    (stamps : List (String × Binary64)) :
    stampRecords before ((label, time) :: stamps) =
      .record [("label", .str label), ("time_ms", .float time),
        ("delta", .float ((before.map time.sub).getD 0))] ::
      stampRecords (some time) stamps := by
  cases before with
  | none => rfl
  | some before => rfl

theorem stampRecords_append (earlier stamps : List (String × Binary64)) :
    stampRecords (earlier.getLast?.map Prod.snd) stamps =
      stamps.mapIdx fun k => stampRecord (earlier ++ stamps) (earlier.length + k) := by
  induction stamps generalizing earlier with
  | nil => rfl
  | cons stamp stamps ih =>
    obtain ⟨label, time⟩ := stamp
    have hrest := ih (earlier ++ [(label, time)])
    rw [List.getLast?_concat, Option.map_some, List.append_assoc, List.singleton_append] at hrest
    have hdelta := delta_append earlier ((label, time) :: stamps) time
    rw [stampRecords_cons, hrest, List.mapIdx_cons, ← hdelta]
    simp only [stampRecord, Nat.add_zero, List.length_append, List.length_singleton, Nat.add_assoc,
      Nat.add_comm 1]

/-- The timestamps as records, each with the time since the one before. -/
theorem toRecord_replay : (replay {} events).toRecord =
    .record [
      ("word_counts", .array ((replay {} events).histogram.map fun c =>
        .record [("word", .str c.1), ("count", .int c.2)])),
      ("timestamps", .array ((stamped events).mapIdx (stampRecord (stamped events))))] := by
  have hstamps : stampRecords none (stamped events) =
      (stamped events).mapIdx (stampRecord (stamped events)) := by
    simpa using stampRecords_append [] (stamped events)
  rw [toRecord, stamps_replay, hstamps]

end Profile

end Wordstack
