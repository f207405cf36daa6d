import MultiPlayerGame.Library.CappedLog
import MultiPlayerGame.Results.EventOrder

/-!
# No event id is lost or used twice

Threads that call `recordEvent` at once draw their ids in one order and push their events in another
(`Results.EventOrder`), and the log forgets all but the latest thousand.  So the events in the log
may be any of those pushed.  What can be said of them comes from following every id through: it is
drawn by one call (`drawn`), then held by that call, then pushed once, with what the call was made
with (`pushed`).

`Followed` says so of a configuration and the log of how it was reached, and `ids_of_logged` reads
off it what the event log contains.

## The invariant

A call of `recordEvent` is at one of three places: it has not drawn its id, it holds one whose event
has not been pushed, or it has pushed its event (`Place`).  `Followed` says for every call that has
been made where it is, and that the ids and the events that belong to calls at these places are
exactly the ids drawn and the events pushed.  Each of the five kinds of steps moves one call at
most, and the other calls stay where they are (`Place.mono`).

Ids are drawn in increasing order, from one counter.  So the ids drawn so far are those up to their
number (`Followed.drawn_le`), no two calls have the same, and the number of events is the number of
calls as soon as nobody is being served.

The log itself enters at the end only.  `pushEvent` keeps the last thousand events pushed, whatever
their ids, so what it contains is a suffix of `pushed` (`Library.CappedLog`), and everything that
was shown of the events pushed holds of those in the log.
-/

namespace MultiPlayerGame
namespace EventIds

open Bytes (ascii)
open GameState (maxEvents)
open Interleaving (Logged Reachable)
open EventOrder (Entry record State)

/-- The calls made on the way to a configuration, with who made each and its answer. -/
abbrev Log := List (ℕ × Σ c : Call, c.Ans)

/-- The id that a step draws, with the call of `recordEvent` that draws it. -/
def drawn? : (ℕ × Σ c : Call, c.Ans) → Option (ℕ × ℕ)
  | (id, ⟨.fetchAddEventId, eventId⟩) => some (id, eventId)
  | _ => none

/-- The event that a step pushes. -/
def pushed? : (ℕ × Σ c : Call, c.Ans) → Option GameEvent
  | (_, ⟨.pushEvent ev, _⟩) => some ev
  | _ => none

/-- The ids drawn so far, oldest first. -/
def drawn (log : Log) : List (ℕ × ℕ) := log.filterMap drawn?

/-- The events pushed so far, oldest first. -/
def pushed (log : Log) : List GameEvent := log.filterMap pushed?

/-- The calls of `recordEvent` so far. -/
def calls (history : List (Interleaving.Event Entry Unit)) : List (ℕ × Entry) :=
  history.filterMap fun
    | .invoke id entry => some (id, entry)
    | .respond .. => none

/-- What `recordEvent` was called with for an event. -/
def entryOf (ev : GameEvent) : Entry := (ev.playerId, ev.eventType, ev.data)

/-- `recordEvent` with its id drawn. -/
def stamp (entry : Entry) (eventId : ℕ) : Handler Unit := do
  let timestamp ← invoke .systemClock
  invoke (.pushEvent ⟨eventId, entry.1, entry.2.1, entry.2.2, timestamp⟩)

/-- `recordEvent` about to push. -/
def push (entry : Entry) (eventId : ℕ) (timestamp : Int) : Handler Unit :=
  invoke (.pushEvent ⟨eventId, entry.1, entry.2.1, entry.2.2, timestamp⟩)

/-! ## Where a call is -/

/-- **How far a call has come**, which is left with `p`.  Its id is the only one that it draws, and
its event the only one that carries it. -/
inductive Place (log : Log) (i : ℕ) (entry : Entry) (p : Option (Handler Unit)) : Prop where
  | waiting (hp : p = some (record entry)) (hno : ∀ k, (i, k) ∉ drawn log)
  | holding (k : ℕ) (hp : p = some (stamp entry k) ∨ ∃ t, p = some (push entry k t))
      (hdrew : (i, k) ∈ drawn log) (hopen : ∀ ev ∈ pushed log, ev.eventId ≠ k)
  | done (k : ℕ) (hp : p = some (.ret ()) ∨ p = none) (hdrew : (i, k) ∈ drawn log)
      (ev : GameEvent) (hev : ev ∈ pushed log) (hid : ev.eventId = k) (hentry : entryOf ev = entry)

/-- **Every id is accounted for.**  The ids drawn, the events pushed and the calls made fit
together, and every call is at one of its places. -/
structure Followed (x : State) (log : Log) : Prop where
  draws : (drawn log).map Prod.snd = List.range' 1 (drawn log).length
  drawers : ((drawn log).map Prod.fst).Nodup
  drew : ∀ i k, (i, k) ∈ drawn log → ∃ entry, (i, entry) ∈ calls x.history
  next : x.shared.game.nextEventId = (drawn log).length + 1
  events : x.shared.game.events = (pushed log).rtake maxEvents
  pushedOnce : ((pushed log).map GameEvent.eventId).Nodup
  origin : ∀ ev ∈ pushed log, ∃ i, (i, entryOf ev) ∈ calls x.history ∧ (i, ev.eventId) ∈ drawn log
  callers : ((calls x.history).map Prod.fst).Nodup
  place : ∀ i entry, (i, entry) ∈ calls x.history → Place log i entry (x.inflight i)

section Calls

variable {history : List (Interleaving.Event Entry Unit)} {i : ℕ} {entry : Entry}

theorem mem_calls : (i, entry) ∈ calls history ↔ .invoke i entry ∈ history := by
  unfold calls
  rw [List.mem_filterMap]
  constructor
  · rintro ⟨ev, hev, h⟩
    cases ev with
    | invoke id q =>
      cases h
      exact hev
    | respond => cases h
  · exact fun h => ⟨_, h, rfl⟩

@[simp] theorem calls_invoke : calls (history ++ [.invoke i entry]) =
    calls history ++ [(i, entry)] := by
  simp [calls]

@[simp] theorem calls_respond {u : Unit} : calls (history ++ [.respond i u]) = calls history := by
  simp [calls]

end Calls

section Log

variable {log : Log} {i : ℕ}

@[simp] theorem drawn_fetch {k : ℕ} :
    drawn (log ++ [(i, ⟨.fetchAddEventId, k⟩)]) = drawn log ++ [(i, k)] := by
  simp [drawn, drawn?]

@[simp] theorem drawn_clock {t : Int} : drawn (log ++ [(i, ⟨.systemClock, t⟩)]) = drawn log := by
  simp [drawn, drawn?]

@[simp] theorem drawn_push {ev : GameEvent} {u : Unit} :
    drawn (log ++ [(i, ⟨.pushEvent ev, u⟩)]) = drawn log := by
  simp [drawn, drawn?]

@[simp] theorem pushed_fetch {k : ℕ} :
    pushed (log ++ [(i, ⟨.fetchAddEventId, k⟩)]) = pushed log := by
  simp [pushed, pushed?]

@[simp] theorem pushed_clock {t : Int} :
    pushed (log ++ [(i, ⟨.systemClock, t⟩)]) = pushed log := by
  simp [pushed, pushed?]

@[simp] theorem pushed_push {ev : GameEvent} {u : Unit} :
    pushed (log ++ [(i, ⟨.pushEvent ev, u⟩)]) = pushed log ++ [ev] := by
  simp [pushed, pushed?]

end Log

/-! ## One step -/

section Steps

variable {fp : Doubles} {w₀ : World} {x : State} {log log' : Log} {i j k : ℕ} {entry : Entry}
  {p : Option (Handler Unit)}

/-- A call stays where it is while others draw and push. -/
theorem Place.mono (h : Place log i entry p)
    (hdrawn : ∀ k, (i, k) ∈ drawn log' ↔ (i, k) ∈ drawn log)
    (hpushed : ∀ ev ∈ pushed log, ev ∈ pushed log')
    (hnew : ∀ ev ∈ pushed log', ev ∉ pushed log → (i, ev.eventId) ∉ drawn log) :
    Place log' i entry p := by
  cases h with
  | waiting hp hno => exact .waiting hp fun k hk => hno k ((hdrawn k).mp hk)
  | holding k hp hdrew hopen =>
    refine .holding k hp ((hdrawn k).mpr hdrew) fun ev hev hid => ?_
    by_cases hold : ev ∈ pushed log
    · exact hopen ev hold hid
    · exact hnew ev hev hold (hid ▸ hdrew)
  | done k hp hdrew ev hev hid hentry =>
    exact .done k hp ((hdrawn k).mpr hdrew) ev (hpushed ev hev) hid hentry

/-- An id is drawn by one call. -/
theorem Followed.drawer_unique (h : Followed x log) (hi : (i, k) ∈ drawn log)
    (hj : (j, k) ∈ drawn log) : i = j := by
  have hnodup : ((drawn log).map Prod.snd).Nodup := by
    rw [h.draws]
    exact List.nodup_range'
  exact congrArg Prod.fst (List.inj_on_of_nodup_map hnodup hi hj rfl)

/-- The ids drawn are those up to the number of draws. -/
theorem Followed.drawn_le (h : Followed x log) (hi : (i, k) ∈ drawn log) :
    1 ≤ k ∧ k ≤ (drawn log).length := by
  have hk : k ∈ (drawn log).map Prod.snd := List.mem_map_of_mem hi
  rw [h.draws, List.mem_range'_1] at hk
  omega

/-- A call is made once. -/
theorem Followed.entry_unique {entry' : Entry} (h : Followed x log)
    (hi : (i, entry) ∈ calls x.history) (hj : (i, entry') ∈ calls x.history) : entry = entry' :=
  congrArg Prod.snd (List.inj_on_of_nodup_map h.callers hi hj rfl)

theorem followed_start (hfresh : w₀.Fresh) : Followed (.start w₀) [] := by
  obtain ⟨matchStart, hgame⟩ := hfresh
  refine ⟨rfl, List.nodup_nil, fun i k hmem => (by cases hmem), ?_, ?_, List.nodup_nil,
    fun ev hmem => (by cases hmem), List.nodup_nil, fun i entry hmem => by cases hmem⟩
  · change w₀.game.nextEventId = 1
    rw [hgame]
  · change w₀.game.events = []
    rw [hgame]

theorem Followed.invoke (h : Followed x log) (hfresh : ∀ q, .invoke i q ∉ x.history) :
    Followed ⟨x.shared, Function.update x.inflight i (some (record entry)),
      x.history ++ [.invoke i entry]⟩ log where
  draws := h.draws
  drawers := h.drawers
  drew := fun j k hdrew => by
    obtain ⟨entry', hmem⟩ := h.drew j k hdrew
    exact ⟨entry', by simp [hmem]⟩
  next := h.next
  events := h.events
  pushedOnce := h.pushedOnce
  origin := fun ev hev => by
    obtain ⟨j, hmem, hdrew⟩ := h.origin ev hev
    exact ⟨j, by simp [hmem], hdrew⟩
  callers := by
    rw [calls_invoke, List.map_append, List.nodup_append]
    refine ⟨h.callers, List.nodup_singleton _, fun a ha b hb hab => ?_⟩
    obtain ⟨⟨j, entry'⟩, hmem, rfl⟩ := List.mem_map.mp ha
    cases List.mem_singleton.mp hb
    cases hab
    exact hfresh entry' (mem_calls.mp hmem)
  place := fun j entry' hmem => by
    rw [calls_invoke, List.mem_append, List.mem_singleton] at hmem
    rcases hmem with hmem | hmem
    · have hj : j ≠ i := fun heq => hfresh entry' (mem_calls.mp (heq ▸ hmem))
      change Place log j entry' (Function.update x.inflight i _ j)
      rw [Function.update_of_ne hj]
      exact h.place j entry' hmem
    · cases hmem
      refine .waiting (Function.update_self ..) fun k hdrew => ?_
      obtain ⟨entry', hmem⟩ := h.drew _ k hdrew
      exact hfresh entry' (mem_calls.mp hmem)

theorem Followed.respond (h : Followed x log) {u : Unit} (done : x.inflight i = some (.ret u)) :
    Followed ⟨x.shared, Function.update x.inflight i none, x.history ++ [.respond i u]⟩ log where
  draws := h.draws
  drawers := h.drawers
  drew := fun j k hdrew => by
    rw [calls_respond]
    exact h.drew j k hdrew
  next := h.next
  events := h.events
  pushedOnce := h.pushedOnce
  origin := fun ev hev => by
    rw [calls_respond]
    exact h.origin ev hev
  callers := by
    rw [calls_respond]
    exact h.callers
  place := fun j entry' hmem => by
    rw [calls_respond] at hmem
    change Place log j entry' (Function.update x.inflight i none j)
    by_cases hj : j = i
    · subst hj
      rw [Function.update_self]
      cases h.place j entry' hmem with
      | waiting hp => cases done.symm.trans hp
      | holding k hp =>
        rcases hp with hp | ⟨t, hp⟩
        · cases done.symm.trans hp
        · cases done.symm.trans hp
      | done k _ hdrew ev hev hid hentry => exact .done k (Or.inr rfl) hdrew ev hev hid hentry
    · rw [Function.update_of_ne hj]
      exact h.place j entry' hmem

/-- **An id is drawn.**  It is the next one, so nobody holds it and no event has it. -/
theorem Followed.fetch (h : Followed x log) (hmem : (i, entry) ∈ calls x.history)
    (hno : ∀ k, (i, k) ∉ drawn log) {g : GameState} (hg : g.events = x.shared.game.events)
    (hnext : g.nextEventId = x.shared.game.nextEventId + 1) :
    Followed ⟨{ x.shared with game := g },
      Function.update x.inflight i (some (stamp entry x.shared.game.nextEventId)), x.history⟩
      (log ++ [(i, ⟨.fetchAddEventId, x.shared.game.nextEventId⟩)]) where
  draws := by
    rw [drawn_fetch, List.map_append, h.draws, List.length_append, List.length_singleton,
      List.range'_1_concat, h.next, Nat.add_comm 1]
    rfl
  drawers := by
    rw [drawn_fetch, List.map_append, List.nodup_append]
    refine ⟨h.drawers, List.nodup_singleton _, fun a ha b hb hab => ?_⟩
    obtain ⟨⟨j, k⟩, hdrew, rfl⟩ := List.mem_map.mp ha
    cases List.mem_singleton.mp hb
    cases hab
    exact hno k hdrew
  drew := fun j k hdrew => by
    rw [drawn_fetch, List.mem_append, List.mem_singleton] at hdrew
    rcases hdrew with hdrew | hdrew
    · exact h.drew j k hdrew
    · cases hdrew
      exact ⟨entry, hmem⟩
  next := by
    rw [drawn_fetch, List.length_append, List.length_singleton]
    exact hnext.trans (congrArg (· + 1) h.next)
  events := by
    rw [pushed_fetch]
    exact hg.trans h.events
  pushedOnce := by
    rw [pushed_fetch]
    exact h.pushedOnce
  origin := fun ev hev => by
    rw [pushed_fetch] at hev
    obtain ⟨j, hcall, hdrew⟩ := h.origin ev hev
    exact ⟨j, hcall, by simp [hdrew]⟩
  callers := h.callers
  place := fun j entry' hmem' => by
    change Place _ j entry' (Function.update x.inflight i _ j)
    by_cases hj : j = i
    · subst hj
      cases h.entry_unique hmem hmem'
      rw [Function.update_self]
      refine .holding _ (Or.inl rfl) (by simp) fun ev hev => ?_
      rw [pushed_fetch] at hev
      obtain ⟨j', -, hdrew⟩ := h.origin ev hev
      have hle := (h.drawn_le hdrew).2
      have hnext := h.next
      omega
    · rw [Function.update_of_ne hj]
      refine (h.place j entry' hmem').mono (fun k => ?_) (fun ev hev => ?_) fun ev hev hnot => ?_
      · simp [hj]
      · rwa [pushed_fetch]
      · rw [pushed_fetch] at hev
        exact absurd hev hnot

/-- The clock is read. -/
theorem Followed.clock (h : Followed x log) (hmem : (i, entry) ∈ calls x.history)
    (hdrew : (i, k) ∈ drawn log) (hopen : ∀ ev ∈ pushed log, ev.eventId ≠ k) (t : Int) :
    Followed ⟨x.shared, Function.update x.inflight i (some (push entry k t)), x.history⟩
      (log ++ [(i, ⟨.systemClock, t⟩)]) where
  draws := by simpa using h.draws
  drawers := by simpa using h.drawers
  drew := by simpa using h.drew
  next := by simpa using h.next
  events := by simpa using h.events
  pushedOnce := by simpa using h.pushedOnce
  origin := by simpa using h.origin
  callers := h.callers
  place := fun j entry' hmem' => by
    change Place _ j entry' (Function.update x.inflight i _ j)
    by_cases hj : j = i
    · subst hj
      cases h.entry_unique hmem hmem'
      rw [Function.update_self]
      exact .holding k (Or.inr ⟨t, rfl⟩) (by simpa using hdrew) (by simpa using hopen)
    · rw [Function.update_of_ne hj]
      exact (h.place j entry' hmem').mono (by simp) (by simp) fun ev hev hnot =>
        absurd (by simpa using hev) hnot

/-- **An event is pushed.**  The call that holds the id is done with it, and the log drops its
oldest event if it is full. -/
theorem Followed.push (h : Followed x log) (hmem : (i, entry) ∈ calls x.history)
    (hdrew : (i, k) ∈ drawn log) (hopen : ∀ ev ∈ pushed log, ev.eventId ≠ k) {ev : GameEvent}
    (hid : ev.eventId = k) (hentry : entryOf ev = entry) (u : Unit) :
    Followed ⟨{ x.shared with game := x.shared.game.pushEvent ev },
      Function.update x.inflight i (some (.ret ())), x.history⟩
      (log ++ [(i, ⟨.pushEvent ev, u⟩)]) where
  draws := by simpa using h.draws
  drawers := by simpa using h.drawers
  drew := by simpa using h.drew
  next := by
    rw [drawn_push]
    exact h.next
  events := by
    have hevents : (x.shared.game.pushEvent ev).events =
        CappedLog.push maxEvents x.shared.game.events ev := rfl
    rw [pushed_push, ← CappedLog.push_rtake, ← h.events]
    exact hevents
  pushedOnce := by
    rw [pushed_push, List.map_append, List.nodup_append]
    refine ⟨h.pushedOnce, List.nodup_singleton _, fun a ha b hb hab => ?_⟩
    obtain ⟨ev', hev', rfl⟩ := List.mem_map.mp ha
    cases List.mem_singleton.mp hb
    exact hopen ev' hev' (hab.trans hid)
  origin := fun ev' hev' => by
    rw [pushed_push, List.mem_append, List.mem_singleton] at hev'
    rw [drawn_push]
    rcases hev' with hev' | rfl
    · exact h.origin ev' hev'
    · exact ⟨i, hentry ▸ hmem, hid ▸ hdrew⟩
  callers := h.callers
  place := fun j entry' hmem' => by
    change Place _ j entry' (Function.update x.inflight i _ j)
    by_cases hj : j = i
    · subst hj
      cases h.entry_unique hmem hmem'
      rw [Function.update_self]
      exact .done k (Or.inl rfl) (by simpa using hdrew) ev (by simp) hid hentry
    · rw [Function.update_of_ne hj]
      refine (h.place j entry' hmem').mono (by simp) (fun ev' hev' => by simp [hev'])
        fun ev' hev' hnot hdrew' => ?_
      rw [pushed_push, List.mem_append, List.mem_singleton] at hev'
      rcases hev' with hev' | rfl
      · exact hnot hev'
      · exact hj (h.drawer_unique hdrew' (hid ▸ hdrew))

/-- **Every step keeps every id accounted for.**  By induction on the log of calls, with one lemma
for each kind of step. -/
theorem followed_of_logged (hfresh : w₀.Fresh) (h : Logged record (Call.exec fp) w₀ x log) :
    Followed x log := by
  induction h with
  | start => exact followed_start hfresh
  | invoke _ id q fresh ih => exact ih.invoke fresh
  | respond before id r done ih => exact ih.respond done
  | call before id c rest e running ih =>
    obtain ⟨entry, hinvoke⟩ :=
      (Interleaving.reachable_iff_logged.mpr ⟨_, before⟩).invoked running
    have hmem := mem_calls.mpr hinvoke
    cases ih.place id entry hmem with
    | waiting hp hno =>
      cases running.symm.trans hp
      exact ih.fetch hmem hno rfl rfl
    | holding k hp hdrew hopen =>
      rcases hp with hp | ⟨t, hp⟩
      · cases running.symm.trans hp
        exact ih.clock hmem hdrew hopen _
      · cases running.symm.trans hp
        exact ih.push hmem hdrew hopen rfl rfl ()
    | done k hp =>
      rcases hp with hp | hp
      · cases running.symm.trans hp
      · cases running.symm.trans hp

/-! ## What the log contains -/

/-- When nobody is being served, every id drawn has been pushed. -/
theorem Followed.pushed_perm (h : Followed x log) (hquiet : x.Quiet) :
    ((pushed log).map GameEvent.eventId).Perm (List.range' 1 (drawn log).length) := by
  refine (List.perm_ext_iff_of_nodup h.pushedOnce List.nodup_range').mpr fun k => ?_
  constructor
  · intro hk
    obtain ⟨ev, hev, rfl⟩ := List.mem_map.mp hk
    obtain ⟨j, -, hdrew⟩ := h.origin ev hev
    exact h.draws ▸ List.mem_map_of_mem hdrew
  · intro hk
    rw [← h.draws] at hk
    obtain ⟨⟨j, k⟩, hdrew, rfl⟩ := List.mem_map.mp hk
    obtain ⟨entry, hmem⟩ := h.drew j k hdrew
    cases h.place j entry hmem with
    | waiting hp hno => exact absurd hdrew (hno k)
    | holding k' hp =>
      rcases hp with hp | ⟨t, hp⟩
      · cases (hquiet j).symm.trans hp
      · cases (hquiet j).symm.trans hp
    | done k' _ hdrew' ev hev hid =>
      have hsame := List.inj_on_of_nodup_map h.drawers hdrew hdrew' rfl
      cases hsame
      exact hid ▸ List.mem_map_of_mem hev

/-- When nobody is being served, every call has drawn an id. -/
theorem Followed.length_drawn (h : Followed x log) (hquiet : x.Quiet) :
    (drawn log).length = (calls x.history).length := by
  have hperm : ((drawn log).map Prod.fst).Perm ((calls x.history).map Prod.fst) := by
    refine (List.perm_ext_iff_of_nodup h.drawers h.callers).mpr fun j => ?_
    constructor
    · intro hj
      obtain ⟨⟨j, k⟩, hdrew, rfl⟩ := List.mem_map.mp hj
      obtain ⟨entry, hmem⟩ := h.drew j k hdrew
      exact List.mem_map_of_mem hmem
    · intro hj
      obtain ⟨⟨j, entry⟩, hmem, rfl⟩ := List.mem_map.mp hj
      cases h.place j entry hmem with
      | waiting hp => cases (hquiet j).symm.trans hp
      | holding k hp hdrew => exact List.mem_map_of_mem hdrew
      | done k _ hdrew => exact List.mem_map_of_mem hdrew
  simpa using hperm.length_eq

/-- **No id is lost or used twice.**  In every interleaving of any number of calls of `recordEvent`:
the ids drawn are `1, …, total_events`, each drawn by one call; the log has the latest of the events
pushed, a thousand at most, with different ids among those drawn; and when no call is being served
after at most a thousand, the log has exactly one event for each id, with what the call that drew
it was made with. -/
theorem ids_of_logged (hfresh : w₀.Fresh) (h : Logged record (Call.exec fp) w₀ x log) :
    ((drawn log).map Prod.snd = List.range' 1 x.shared.game.totalEvents ∧
      ((drawn log).map Prod.fst).Nodup) ∧
    (x.shared.game.events.map GameEvent.eventId).Nodup ∧
    (∀ ev ∈ x.shared.game.events, 1 ≤ ev.eventId ∧ ev.eventId ≤ x.shared.game.totalEvents) ∧
    x.shared.game.events.length = min (pushed log).length maxEvents ∧
    (x.Quiet → (calls x.history).length ≤ maxEvents →
      (x.shared.game.events.map GameEvent.eventId).Perm
        (List.range' 1 (calls x.history).length) ∧
      ∀ ev ∈ x.shared.game.events, ∃ i, (i, entryOf ev) ∈ calls x.history ∧
        (i, ev.eventId) ∈ drawn log) := by
  have hfollowed := followed_of_logged hfresh h
  have htotal : x.shared.game.totalEvents = (drawn log).length := by
    rw [GameState.totalEvents, hfollowed.next, Nat.add_sub_cancel]
  have hsub : x.shared.game.events.Sublist (pushed log) := by
    rw [hfollowed.events]
    exact CappedLog.rtake_sublist _ _
  refine ⟨⟨?_, hfollowed.drawers⟩, ?_, fun ev hev => ?_, ?_, fun hquiet hfew => ⟨?_, fun ev hev =>
    hfollowed.origin ev (hsub.subset hev)⟩⟩
  · rw [htotal]
    exact hfollowed.draws
  · exact hfollowed.pushedOnce.sublist (hsub.map _)
  · obtain ⟨j, -, hdrew⟩ := hfollowed.origin ev (hsub.subset hev)
    rw [htotal]
    exact hfollowed.drawn_le hdrew
  · rw [hfollowed.events, CappedLog.length_rtake, Nat.min_comm]
  · have hperm := hfollowed.pushed_perm hquiet
    have hlength := hfollowed.length_drawn hquiet
    have hpushed : (pushed log).length = (drawn log).length := by
      simpa using hperm.length_eq
    rw [hfollowed.events, CappedLog.rtake_of_length_le (by omega), ← hlength]
    exact hperm

end Steps

/-- Two calls push in the other order than they drew, and both events are there. -/
theorem ids_of_logged_two : ∃ (x : State) (log : Log),
    Logged record (Call.exec .zero) .started x log ∧ x.Quiet ∧
    (x.shared.game.events.map GameEvent.eventId).Perm [1, 2] := by
  have h₀ : Logged record (Call.exec .zero) .started (.start .started) [] := .start
  have h₁ := h₀.invoke 0 (7, ascii "JOIN", []) (by simp [Interleaving.Config.start])
  have h₂ := h₁.invoke 1 (8, ascii "JOIN", []) (by simp [Interleaving.Config.start])
  have h₃ := h₂.call 0 .fetchAddEventId _ {} rfl
  have h₄ := h₃.call 1 .fetchAddEventId _ {} rfl
  have h₅ := h₄.call 1 .systemClock _ {} rfl
  have h₆ := h₅.call 1 (.pushEvent _) _ {} rfl
  have h₇ := h₆.call 0 .systemClock _ {} rfl
  have h₈ := h₇.call 0 (.pushEvent _) _ {} rfl
  have h₉ := h₈.respond 0 () rfl
  have h₁₀ := h₉.respond 1 () rfl
  have hids := (ids_of_logged World.started_fresh h₁₀).2.2.2.2
  refine (fun hquiet => ⟨_, _, h₁₀, hquiet, (hids hquiet (by decide)).1⟩) fun id => ?_
  by_cases hzero : id = 0
  · simp [hzero]
  by_cases hone : id = 1
  · simp [hone]
  · simp [hzero, hone, Interleaving.Config.start]

end EventIds
end MultiPlayerGame
