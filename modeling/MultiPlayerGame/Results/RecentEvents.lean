import MultiPlayerGame.Results.EventIds
import MultiPlayerGame.Server.Snapshots

/-!
# Recent events

When `recordEvent` is called by one thread at a time, the events are pushed in the order of their
ids.  The log then is the end of the list of all events recorded (`CappedLog`), and so is what
`recentEvents` and `snapshot` copy from it, also after the log has begun to forget.

Other threads may call the other methods of the game state at any moment, in the middle of
`recordEvent` too: `Recording` is such a run, and `recent_events` the theorem about it.

## Why it holds

As long as one call of `recordEvent` is over before the next begins, the id that is drawn and the
place at which the event is pushed are the same.  So the events pushed are numbered from 1 on, and
the log, which drops from its front, is the end of that list.  Other methods of the game state do
not touch the log.  `Stage` says where the one call is that may be in progress, and `exists_stage`
follows it through a run in which anything else may happen between its steps.

`recentEvents` and `snapshot` compute where to start in two different ways, and copy by a loop over
indices.  That both copy the last `n` elements, or all if there are fewer, is a fact about lists,
and the only place where the bounds of the loops are looked at (`copyFrom_startIndex`).
-/

namespace MultiPlayerGame
namespace RecentEvents

open Bytes (ascii)
open GameState (maxEvents)
open EventOrder (Entry record)
open EventIds (entryOf stamp push)
open Snapshots (intField arrayField)

/-! ## The two copies -/

/-- The index at which a copy of the last `n` of `size` events begins. -/
def startIndex (size n : Nat) : Nat := if n < size then size - n else 0

/-- The loop that copies the elements from an index on. -/
def copyFrom {α : Type} (i : Nat) (l : List α) : List α :=
  (List.range' i (l.length - i)).filterMap (l[·]?)

theorem copyFrom_succ {α : Type} (a : α) (l : List α) (i : Nat) :
    copyFrom (i + 1) (a :: l) = copyFrom i l := by
  rw [copyFrom, copyFrom, List.length_cons, Nat.add_sub_add_right, Nat.add_comm i,
    ← List.map_add_range', List.filterMap_map]
  refine List.filterMap_congr fun j _ => ?_
  rw [Function.comp_apply, Nat.add_comm, List.getElem?_cons_succ]

theorem copyFrom_eq_drop {α : Type} (i : Nat) (l : List α) : copyFrom i l = l.drop i := by
  induction l generalizing i with
  | nil => simp [copyFrom]
  | cons a l ih =>
    cases i with
    | zero =>
      have hrest := copyFrom_succ a l 0
      rw [ih, List.drop_zero, copyFrom, List.length_cons, Nat.add_sub_add_right] at hrest
      rw [copyFrom, List.length_cons, Nat.sub_zero, List.range'_succ, List.filterMap_cons]
      simp only [List.getElem?_cons_zero, List.drop_zero]
      exact congrArg (a :: ·) hrest
    | succ i => rw [copyFrom_succ, ih, List.drop_succ_cons]

/-- **Both copies are of the last events.**  If there are fewer events than are asked for, both
begin at the first one. -/
theorem copyFrom_startIndex {α : Type} (l : List α) (n : Nat) :
    copyFrom (startIndex l.length n) l = l.rtake n := by
  rw [copyFrom_eq_drop, List.rtake, startIndex]
  split
  · rfl
  · congr 1
    omega

theorem recentEvents_eq (g : GameState) (n : Nat) :
    g.recentEvents n = copyFrom (startIndex g.events.length n) g.events :=
  (copyFrom_startIndex g.events n).symm

/-- The events in a snapshot. -/
theorem events_snapshot (g : GameState) (fp : Doubles) (now : Nat → Int) :
    arrayField (g.snapshot fp now) "recent_events" =
      (copyFrom (startIndex g.events.length 5) g.events).map GameState.eventJson := by
  rw [← recentEvents_eq, arrayField, GameState.snapshot]
  simp +decide

/-! ## Recording -/

/-- **`recordEvent` is called by one thread at a time.**  `entries` are the calls that have
returned, and `current` is what is left of the one that has not.  Other threads take steps of their
own that are not part of `recordEvent`. -/
inductive Recording (fp : Doubles) (w₀ : World) :
    List Entry → Option (Entry × Handler Unit) → World → Prop where
  | start : Recording fp w₀ [] none w₀
  | other {entries : List Entry} {current : Option (Entry × Handler Unit)} {w : World}
      (before : Recording fp w₀ entries current w) (c : Call) (other : c.Unlogged) (e : Env) :
      Recording fp w₀ entries current (c.exec fp e w).2
  | begin {entries : List Entry} {w : World} (before : Recording fp w₀ entries none w)
      (entry : Entry) : Recording fp w₀ entries (some (entry, record entry)) w
  | step {entries : List Entry} {entry : Entry} {w : World} {c : Call} {k : c.Ans → Handler Unit}
      (before : Recording fp w₀ entries (some (entry, .call c k)) w) (e : Env) :
      Recording fp w₀ entries (some (entry, k (c.exec fp e w).1)) (c.exec fp e w).2
  | return {entries : List Entry} {entry : Entry} {w : World}
      (before : Recording fp w₀ entries (some (entry, .ret ())) w) :
      Recording fp w₀ (entries ++ [entry]) none w

/-- The log is the end of the list of all events recorded. -/
structure Recorded (entries : List Entry) (g : GameState) (recorded : List GameEvent) : Prop where
  entries : recorded.map entryOf = entries
  ids : recorded.map GameEvent.eventId = List.range' 1 recorded.length
  events : g.events = recorded.rtake maxEvents

/-- How far `recordEvent` has come.  It has not begun, it holds an id, it has read the clock too, or
it has pushed. -/
inductive Stage (entries : List Entry) (g : GameState) (recorded : List GameEvent)
    (current : Option (Entry × Handler Unit)) : Prop where
  | idle (hnone : current = none) (h : Recorded entries g recorded)
      (hnext : g.nextEventId = recorded.length + 1)
  | waiting (entry : Entry) (hcurrent : current = some (entry, record entry))
      (h : Recorded entries g recorded) (hnext : g.nextEventId = recorded.length + 1)
  | holding (entry : Entry)
      (hcurrent : current = some (entry, stamp entry (recorded.length + 1)) ∨
        ∃ t, current = some (entry, push entry (recorded.length + 1) t))
      (h : Recorded entries g recorded) (hnext : g.nextEventId = recorded.length + 2)
  | done (entry : Entry) (hcurrent : current = some (entry, .ret ()))
      (h : Recorded (entries ++ [entry]) g recorded)
      (hnext : g.nextEventId = recorded.length + 1)

section Run

variable {fp : Doubles} {w₀ w : World} {g g' : GameState} {entries : List Entry}
  {recorded : List GameEvent} {current : Option (Entry × Handler Unit)} {entry : Entry}

/-- Nothing but the log matters. -/
theorem Recorded.of_log (h : Recorded entries g recorded) (hlog : g'.log = g.log) :
    Recorded entries g' recorded :=
  ⟨h.entries, h.ids, (congrArg Prod.fst hlog).trans h.events⟩

theorem Stage.of_log (h : Stage entries g recorded current) (hlog : g'.log = g.log) :
    Stage entries g' recorded current := by
  have hid : g'.nextEventId = g.nextEventId := congrArg Prod.snd hlog
  cases h with
  | idle hnone h hnext => exact .idle hnone (h.of_log hlog) (hid.trans hnext)
  | waiting entry hcurrent h hnext =>
    exact .waiting entry hcurrent (h.of_log hlog) (hid.trans hnext)
  | holding entry hcurrent h hnext =>
    exact .holding entry hcurrent (h.of_log hlog) (hid.trans hnext)
  | done entry hcurrent h hnext => exact .done entry hcurrent (h.of_log hlog) (hid.trans hnext)

/-- **An event is recorded**, with the next id.  The number of events recorded is the id of the last
one, and the log is what the last thousand of them are. -/
theorem Recorded.push (h : Recorded entries g recorded) {ev : GameEvent}
    (hentry : entryOf ev = entry) (hid : ev.eventId = recorded.length + 1) :
    Recorded (entries ++ [entry]) (g.pushEvent ev) (recorded ++ [ev]) where
  entries := by rw [List.map_append, h.entries, List.map_singleton, hentry]
  ids := by
    rw [List.map_append, h.ids, List.length_append, List.length_singleton, List.range'_1_concat,
      List.map_singleton, hid, Nat.add_comm 1]
  events := by
    have hevents : (g.pushEvent ev).events = CappedLog.push maxEvents g.events ev := rfl
    rw [← CappedLog.push_rtake, ← h.events]
    exact hevents

/-- **Every step of the run keeps the log in order.**  The steps of the others do not touch the log,
and the one call in progress goes through its three steps. -/
theorem exists_stage (hfresh : w₀.Fresh) (h : Recording fp w₀ entries current w) :
    ∃ recorded, Stage entries w.game recorded current := by
  induction h with
  | start =>
    obtain ⟨matchStart, hgame⟩ := hfresh
    rw [hgame]
    exact ⟨[], .idle rfl ⟨rfl, rfl, rfl⟩ rfl⟩
  | other _ c hother e ih =>
    obtain ⟨recorded, hstage⟩ := ih
    exact ⟨recorded, hstage.of_log (Call.exec_unlogged fp hother e _)⟩
  | begin _ entry ih =>
    obtain ⟨recorded, hstage⟩ := ih
    cases hstage with
    | idle _ h hnext => exact ⟨recorded, .waiting entry rfl h hnext⟩
    | waiting entry hcurrent => cases hcurrent
    | holding entry hcurrent =>
      rcases hcurrent with hcurrent | ⟨t, hcurrent⟩
      · cases hcurrent
      · cases hcurrent
    | done entry hcurrent => cases hcurrent
  | step _ e ih =>
    rename_i made _ _ _ _
    obtain ⟨recorded, hstage⟩ := ih
    cases hstage with
    | idle hnone => cases hnone
    | waiting entry hcurrent h hnext =>
      cases hcurrent
      refine ⟨recorded, .holding made (Or.inl ?_) ⟨h.entries, h.ids, h.events⟩ ?_⟩
      · rw [← hnext]
        rfl
      · exact congrArg (· + 1) hnext
    | holding entry hcurrent h hnext =>
      rcases hcurrent with hcurrent | ⟨t, hcurrent⟩
      · cases hcurrent
        exact ⟨recorded, .holding _ (Or.inr ⟨_, rfl⟩) h hnext⟩
      · cases hcurrent
        refine ⟨_, .done _ rfl (h.push rfl rfl) ?_⟩
        rw [List.length_append, List.length_singleton]
        exact hnext
    | done entry hcurrent => cases hcurrent
  | «return» _ ih =>
    obtain ⟨recorded, hstage⟩ := ih
    cases hstage with
    | idle hnone => cases hnone
    | waiting entry hcurrent => cases hcurrent
    | holding entry hcurrent =>
      rcases hcurrent with hcurrent | ⟨t, hcurrent⟩
      · cases hcurrent
      · cases hcurrent
    | done entry hcurrent h hnext =>
      cases hcurrent
      exact ⟨recorded, .idle rfl h hnext⟩

/-- **The recent events are the last ones recorded.**  After `n` calls of `recordEvent`, one at a
time, in any company: `total_events` is `n`; and there is a list of `n` events, with the ids `1, …,
n` and what the calls were made with, such that `recentEvents k` is the last `min k n 1000` of them,
with ids that end in `n`, and `snapshot` shows the last `min 5 n`. -/
theorem recent_events (hfresh : w₀.Fresh) (h : Recording fp w₀ entries none w) :
    w.game.totalEvents = entries.length ∧
    ∃ recorded : List GameEvent, recorded.map entryOf = entries ∧
      recorded.map GameEvent.eventId = List.range' 1 entries.length ∧
      (∀ k, w.game.recentEvents k = recorded.rtake (min k (min entries.length 1000)) ∧
        (w.game.recentEvents k).map GameEvent.eventId =
          List.range' (entries.length + 1 - min k (min entries.length 1000))
            (min k (min entries.length 1000))) ∧
      ∀ now,
        arrayField (w.game.snapshot fp now) "recent_events" =
          (recorded.rtake (min 5 entries.length)).map GameState.eventJson ∧
        intField (w.game.snapshot fp now) "total_events" = some (entries.length : Int) := by
  obtain ⟨recorded, hstage⟩ := exists_stage hfresh h
  cases hstage with
  | waiting entry hcurrent => cases hcurrent
  | holding entry hcurrent =>
    rcases hcurrent with hcurrent | ⟨t, hcurrent⟩
    · cases hcurrent
    · cases hcurrent
  | done entry hcurrent => cases hcurrent
  | idle _ h hnext =>
    have hlength : recorded.length = entries.length := by
      rw [← h.entries, List.length_map]
    have hids := h.ids
    rw [hlength] at hids hnext
    have htotal : w.game.totalEvents = entries.length := by
      rw [GameState.totalEvents, hnext, Nat.add_sub_cancel]
    have hrecent : ∀ k, w.game.recentEvents k =
        recorded.rtake (min k (min entries.length 1000)) := by
      intro k
      have hrtake : w.game.recentEvents k = w.game.events.rtake k := rfl
      rw [hrtake, h.events, CappedLog.rtake_rtake, ← CappedLog.rtake_min_length recorded,
        hlength]
      congr 1
      simp only [maxEvents]
      omega
    refine ⟨htotal, recorded, h.entries, hids, fun k => ⟨hrecent k, ?_⟩, fun now => ⟨?_, ?_⟩⟩
    · rw [hrecent k, CappedLog.map_rtake, hids, CappedLog.rtake_range']
      congr 1
      all_goals omega
    · rw [events_snapshot, ← recentEvents_eq, hrecent 5]
      congr 2
      omega
    · rw [intField, GameState.snapshot]
      simp +decide [htotal]

end Run

/-- Two events are recorded, and a player joins in the middle of the first call. -/
theorem recent_events_two : ∃ w : World,
    Recording .zero .started [(7, ascii "JOIN", []), (8, ascii "JOIN", [])] none w ∧
    (w.game.recentEvents 1).map GameEvent.eventId = [2] ∧ w.game.totalEvents = 2 := by
  have h₀ : Recording .zero .started [] none .started := .start
  have h₁ := (h₀.begin (7, ascii "JOIN", [])).step {}
  have h₂ := h₁.other (.addPlayer 7) (by trivial) {}
  have h₃ := ((h₂.step {}).step {}).return
  have h₄ := ((((h₃.begin (8, ascii "JOIN", [])).step {}).step {}).step {}).return
  obtain ⟨htotal, recorded, -, -, hrecent, -⟩ := recent_events World.started_fresh h₄
  exact ⟨_, h₄, (hrecent 1).2, htotal⟩

end RecentEvents
end MultiPlayerGame
