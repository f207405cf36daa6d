import MultiPlayerGame.Library.Traces
import MultiPlayerGame.Results.EventIds

/-!
# When the event log is in order

A thread that records an event takes three steps: it draws an id, it reads the clock, and it pushes
the event with the mutex held.  The mutex orders the pushes among themselves and nothing else, so a
thread may be overtaken between its draw and its push by one that drew later.

`ordered_iff` says that this is the only thing that can go wrong.  It is about one run at a time, of
any number of threads, with evictions.  The log is in order after every step of the run exactly if
every thread pushes in its turn, that is, when no thread that drew later has pushed yet.  The
condition speaks of who took which step when, and of no ids.

The ids come in through `EventIds`.  Draws hand out `1, 2, 3, …`, so of two threads the one that
drew first holds the smaller id (`drewBefore_iff`), and a push carries the id that its thread drew
(`drawn_of_pushed`).  The events pushed so far can then be compared with the one that is pushed now.
The log has only the last thousand of them.  But as long as the log has been in order so have been
all the pushes, and an event above the last thousand is above all (`below_of_below_rtake`).
-/

namespace MultiPlayerGame
namespace EventOrder

open Bytes (ascii)
open GameState (maxEvents)
open Interleaving (Logged Made Reachable Traced cuts_concat cuts_nil)
open EventIds

/-- A run of threads that record events, with the worlds it went through. -/
abbrev Trace := List (Made Call.Ans World)

/-! ## The order of the steps -/

/-- The step draws an id. -/
def Draws (m : Made Call.Ans World) : Prop := m.call = .fetchAddEventId

/-- The step pushes an event. -/
def Pushes (m : Made Call.Ans World) : Prop := ∃ ev, m.call = .pushEvent ev

/-- Thread `i` drew its id before thread `j` drew its own. -/
def DrewBefore (trace : Trace) (i j : ℕ) : Prop :=
  ∃ past later, trace = past ++ later ∧ (∃ m ∈ past, m.id = i ∧ Draws m) ∧
    ∃ m ∈ later, m.id = j ∧ Draws m

/-- **A thread pushes in its turn**: of the threads that have pushed already, none drew its id after
this one. -/
def InTurn (past : Trace) (m : Made Call.Ans World) : Prop :=
  Pushes m → ∀ m' ∈ past, Pushes m' → ¬ DrewBefore past m.id m'.id

/-! ## Threads and their ids -/

/-- Who did what, without the worlds. -/
def logOf (trace : Trace) : Log := trace.map fun m => (m.id, ⟨m.call, m.answer⟩)

theorem mem_drawn {log : Log} {i k : ℕ} :
    (i, k) ∈ drawn log ↔ (i, ⟨.fetchAddEventId, k⟩) ∈ log := by
  unfold drawn
  rw [List.mem_filterMap]
  constructor
  · rintro ⟨⟨j, c, a⟩, hmem, h⟩
    cases c with
    | fetchAddEventId =>
      cases h
      exact hmem
    | _ => cases h
  · exact fun h => ⟨_, h, rfl⟩

theorem mem_pushed {log : Log} {ev : GameEvent} :
    ev ∈ pushed log ↔ ∃ i u, (i, ⟨.pushEvent ev, u⟩) ∈ log := by
  unfold pushed
  rw [List.mem_filterMap]
  constructor
  · rintro ⟨⟨j, c, a⟩, hmem, h⟩
    cases c with
    | pushEvent =>
      cases h
      exact ⟨j, a, hmem⟩
    | _ => cases h
  · rintro ⟨i, u, h⟩
    exact ⟨_, h, rfl⟩

theorem exists_drawn_iff {trace : Trace} {i : ℕ} :
    (∃ k, (i, k) ∈ drawn (logOf trace)) ↔ ∃ m ∈ trace, m.id = i ∧ Draws m := by
  constructor
  · rintro ⟨k, hk⟩
    obtain ⟨⟨before, j, c, a, after⟩, hm, heq⟩ := List.mem_map.mp (mem_drawn.mp hk)
    cases heq
    exact ⟨_, hm, rfl, rfl⟩
  · rintro ⟨⟨before, j, c, a, after⟩, hm, rfl, hc⟩
    change c = .fetchAddEventId at hc
    subst hc
    exact ⟨a, mem_drawn.mpr (List.mem_map.mpr ⟨_, hm, rfl⟩)⟩

section Threads

variable {fp : Doubles} {w₀ : World} {x : State} {trace : Trace} {log : Log} {i j a b : ℕ}

/-- **Of two threads the one that drew first holds the smaller id.**  Ids are given out in
increasing order, and each to one thread. -/
theorem drewBefore_iff (h : Followed x (logOf trace)) (hi : (i, a) ∈ drawn (logOf trace))
    (hj : (j, b) ∈ drawn (logOf trace)) : DrewBefore trace i j ↔ a < b := by
  have hsorted : (drawn (logOf trace)).Pairwise fun d d' => d.2 < d'.2 := by
    rw [← List.pairwise_map (f := Prod.snd), h.draws]
    exact List.pairwise_lt_range'
  have hone : ∀ {i k k'}, (i, k) ∈ drawn (logOf trace) → (i, k') ∈ drawn (logOf trace) → k = k' :=
    fun hk hk' => congrArg Prod.snd (List.inj_on_of_nodup_map h.drawers hk hk' rfl)
  have hsplit : ∀ past later, trace = past ++ later →
      drawn (logOf trace) = drawn (logOf past) ++ drawn (logOf later) := fun past later heq => by
    rw [heq, logOf, List.map_append]
    exact List.filterMap_append
  constructor
  · rintro ⟨past, later, heq, hpast, hlater⟩
    obtain ⟨a', ha'⟩ := exists_drawn_iff.mpr hpast
    obtain ⟨b', hb'⟩ := exists_drawn_iff.mpr hlater
    have hall := hsplit past later heq
    have hlt : a' < b' := by
      rw [hall] at hsorted
      exact (List.pairwise_append.mp hsorted).2.2 _ ha' _ hb'
    rw [hone hi (hall ▸ List.mem_append_left _ ha'), hone hj (hall ▸ List.mem_append_right _ hb')]
    exact hlt
  · intro hlt
    obtain ⟨m, hm, heq⟩ := List.mem_map.mp (mem_drawn.mp hi)
    obtain ⟨past, later, rfl⟩ := List.append_of_mem hm
    obtain ⟨before, i', c, answer, after⟩ := m
    cases heq
    -- the draw of `j` is not among the first ones, which end with that of `i`
    let m : Made Call.Ans World := ⟨before, i', .fetchAddEventId, answer, after⟩
    have hfirst : drawn (logOf (past ++ [m])) = drawn (logOf past) ++ [(i', answer)] := by
      rw [logOf, List.map_append]
      exact drawn_fetch
    have hcut : past ++ m :: later = past ++ [m] ++ later := by simp
    have hall := hsplit (past ++ [m]) later hcut
    refine ⟨past ++ [m], later, hcut,
      ⟨m, List.mem_append_right _ (List.mem_singleton_self _), rfl, rfl⟩,
      exists_drawn_iff.mp ⟨b, ?_⟩⟩
    rw [hall] at hj
    refine (List.mem_append.mp hj).resolve_left fun hno => ?_
    rw [hfirst] at hno
    rw [hall, hfirst, List.append_assoc] at hsorted
    rcases List.mem_append.mp hno with hno | hno
    · have hba : b < answer := (List.pairwise_append.mp hsorted).2.2 _ hno _ List.mem_cons_self
      exact Nat.lt_asymm hlt hba
    · cases List.mem_singleton.mp hno
      exact Nat.lt_irrefl _ hlt

/-- A thread that makes a call pushes an event with the id it drew, or it pushes nothing. -/
theorem holds_of_push (h : Followed x log) (hx : Reachable record (Call.exec fp) w₀ x)
    {ev : GameEvent} {k : Unit → Handler Unit}
    (hi : x.inflight i = some (.call (.pushEvent ev) k)) :
    (i, ev.eventId) ∈ drawn log ∧ ∀ ev' ∈ pushed log, ev'.eventId ≠ ev.eventId := by
  obtain ⟨entry, hinvoke⟩ := hx.invoked hi
  cases h.place i entry (mem_calls.mpr hinvoke) with
  | waiting hp => cases hi.symm.trans hp
  | holding k hp hdrew hopen =>
    rcases hp with hp | ⟨t, hp⟩
    · cases hi.symm.trans hp
    · cases hi.symm.trans hp
      exact ⟨hdrew, hopen⟩
  | done k hp =>
    rcases hp with hp | hp
    · cases hi.symm.trans hp
    · cases hi.symm.trans hp

/-- **An event that was pushed carries the id that its thread drew.**  Between the two steps the
thread does nothing but read the clock. -/
theorem drawn_of_pushed (hfresh : w₀.Fresh) (h : Logged record (Call.exec fp) w₀ x log)
    {ev : GameEvent} {u : Unit} (hpush : (i, ⟨.pushEvent ev, u⟩) ∈ log) :
    (i, ev.eventId) ∈ drawn log := by
  induction h with
  | start => cases hpush
  | invoke _ _ _ _ ih => exact ih hpush
  | respond _ _ _ _ ih => exact ih hpush
  | call before id c k e running ih =>
    have hmono : ∀ {log : Log} {s}, (i, ev.eventId) ∈ drawn log →
        (i, ev.eventId) ∈ drawn (log ++ [s]) := fun hd =>
      mem_drawn.mpr (List.mem_append_left _ (mem_drawn.mp hd))
    rcases List.mem_append.mp hpush with hpush | hpush
    · exact hmono (ih hpush)
    · cases List.mem_singleton.mp hpush
      exact hmono (holds_of_push (followed_of_logged hfresh before)
        (Interleaving.reachable_iff_logged.mpr ⟨_, before⟩) running).1

end Threads

/-! ## Pushes in order -/

/-- In a list with increasing ids, what is above the last entries is above all. -/
theorem below_of_below_rtake {events : List GameEvent} (h : Increasing events) {n k : ℕ}
    (hn : 0 < n) (hlt : ∀ ev ∈ events.rtake n, ev.eventId < k) :
    ∀ ev ∈ events, ev.eventId < k := by
  intro ev hev
  have hsplit : events = events.take (events.length - n) ++ events.rtake n :=
    (List.take_append_drop _ _).symm
  rw [hsplit] at hev
  rcases List.mem_append.mp hev with hold | hnew
  · -- there is an entry among the last ones, and it is above this one
    have hlength := List.length_pos_of_mem hold
    rw [List.length_take] at hlength
    obtain ⟨last, hlast⟩ : ∃ last, last ∈ events.rtake n := by
      refine List.exists_mem_of_length_pos ?_
      rw [CappedLog.length_rtake]
      omega
    rw [hsplit] at h
    exact Nat.lt_trans ((List.pairwise_append.mp h).2.2 ev hold last hlast) (hlt last hlast)
  · exact hlt ev hnew

section Run

variable {fp : Doubles} {w₀ : World} {x : State} {trace : Trace}

theorem Fresh.ordered (hfresh : w₀.Fresh) : Ordered w₀.game := by
  obtain ⟨matchStart, hgame⟩ := hfresh
  rw [hgame]
  exact .of_increasing List.Pairwise.nil

/-- As long as the log has been in order, the threads have pushed increasing ids, those of the
events that are no longer in the log included. -/
theorem increasing_pushed (hfresh : w₀.Fresh) (h : Traced record (Call.exec fp) w₀ x trace)
    (hgood : ∀ m ∈ trace, Ordered m.after.game) :
    Ordered x.shared.game ∧ Increasing (pushed (logOf trace)) := by
  induction h with
  | start => exact ⟨Fresh.ordered hfresh, List.Pairwise.nil⟩
  | invoke _ _ _ _ ih => exact ih hgood
  | respond _ _ _ _ ih => exact ih hgood
  | call before id c k e running ih =>
    obtain ⟨hbefore, hlast⟩ := List.forall_mem_append.mp hgood
    obtain ⟨hnow, hincreasing⟩ := ih hbefore
    have hafter := List.forall_mem_singleton.mp hlast
    refine ⟨hafter, ?_⟩
    have hlog : ∀ (l : Trace) m, logOf (l ++ [m]) = logOf l ++ [(m.id, ⟨m.call, m.answer⟩)] :=
      fun l m => List.map_append
    rw [hlog]
    cases c with
    | pushEvent ev =>
      have hevents := (followed_of_logged hfresh before.logged).events
      have hbelow := (increasing_pushEvent hnow.increasing ev).mp hafter.increasing
      rw [hevents] at hbelow
      rw [pushed_push]
      refine List.pairwise_append.mpr ⟨hincreasing, List.pairwise_singleton _ _, ?_⟩
      intro a ha b hb
      rw [List.mem_singleton.mp hb]
      exact below_of_below_rtake hincreasing (by decide) hbelow a ha
    | _ =>
      have hsame : ∀ (l : Log) s, pushed? s = none → pushed (l ++ [s]) = pushed l := by
        intro l s hs
        simp [pushed, hs]
      rw [hsame _ _ rfl]
      exact hincreasing

/-- **When the event log is in order.**  In one run of any number of threads, whatever the
interleaving and with evictions, the log is in order after every step exactly if every thread that
pushes does so in its turn. -/
theorem ordered_iff (hfresh : w₀.Fresh) (h : Traced record (Call.exec fp) w₀ x trace) :
    (∀ m ∈ trace, Ordered m.after.game) ↔
      ∀ past m later, trace = past ++ m :: later → InTurn past m := by
  refine Traced.good_iff (fun w => Ordered w.game) (Fresh.ordered hfresh) ?_ h
  intro x trace id c k e hx hgood hordered running
  by_cases hpushes : ∃ ev, c = .pushEvent ev
  swap
  · refine iff_of_true (.of_increasing ?_) fun hm => absurd hm hpushes
    have hevents : (c.exec fp e x.shared).2.game.events = x.shared.game.events := by
      obtain ⟨entry, hinvoke⟩ := hx.reachable.invoked running
      cases (followed_of_logged hfresh hx.logged).place id entry (mem_calls.mpr hinvoke) with
      | waiting hp =>
        cases running.symm.trans hp
        rfl
      | holding k hp =>
        rcases hp with hp | ⟨t, hp⟩
        · cases running.symm.trans hp
          rfl
        · cases running.symm.trans hp
          exact absurd ⟨_, rfl⟩ hpushes
      | done k hp =>
        rcases hp with hp | hp
        · cases running.symm.trans hp
        · cases running.symm.trans hp
    rw [hevents]
    exact hordered.increasing
  obtain ⟨ev, rfl⟩ := hpushes
  have hfollowed : Followed x (logOf trace) := followed_of_logged hfresh hx.logged
  obtain ⟨hdrew, hopen⟩ := holds_of_push hfollowed hx.reachable running
  have hincreasing := (increasing_pushed hfresh hx hgood).2
  have hpush := increasing_pushEvent hordered.increasing ev
  -- the log has the last of the events pushed, so being above it is being above them all
  have hall : (∀ a ∈ x.shared.game.events, a.eventId < ev.eventId) ↔
      ∀ a ∈ pushed (logOf trace), a.eventId < ev.eventId := by
    rw [hfollowed.events]
    exact ⟨below_of_below_rtake hincreasing (by decide),
      fun hlt a ha => hlt a ((CappedLog.rtake_sublist _ _).subset ha)⟩
  have hturn : (∀ a ∈ pushed (logOf trace), a.eventId < ev.eventId) ↔
      ∀ m' ∈ trace, Pushes m' → ¬ DrewBefore trace id m'.id := by
    constructor
    · rintro hlt ⟨before, j, c', u, after⟩ hm' ⟨ev', rfl⟩ hbefore
      have hmem : (j, ⟨.pushEvent ev', u⟩) ∈ logOf trace := List.mem_map.mpr ⟨_, hm', rfl⟩
      have hlater := (drewBefore_iff hfollowed hdrew
        (drawn_of_pushed hfresh hx.logged hmem)).mp hbefore
      exact Nat.lt_asymm hlater (hlt ev' (mem_pushed.mpr ⟨j, u, hmem⟩))
    · intro hturn a ha
      obtain ⟨j, u, hmem⟩ := mem_pushed.mp ha
      obtain ⟨⟨before, j', c', u', after⟩, hm', heq⟩ := List.mem_map.mp hmem
      cases heq
      have hnot := hturn _ hm' ⟨a, rfl⟩
      rw [drewBefore_iff hfollowed hdrew (drawn_of_pushed hfresh hx.logged hmem)] at hnot
      exact Nat.lt_of_le_of_ne (Nat.not_lt.mp hnot) (hopen a ha)
  constructor
  · intro hafter _
    exact hturn.mp (hall.mp (hpush.mp hafter.increasing))
  · intro hinturn
    exact .of_increasing (hpush.mpr (hall.mpr (hturn.mpr (hinturn ⟨ev, rfl⟩))))

/-- Thread 1 draws its id while thread 0 has not pushed, and pushes after it. -/
theorem ordered_iff_two : ∃ (x : State) (trace : Trace),
    Traced record (Call.exec .zero) .started x trace ∧
    trace.map (fun m => m.id) = [0, 1, 1, 0, 0, 1] ∧
    (∀ m ∈ trace, Ordered m.after.game) ∧
    x.shared.game.events.map GameEvent.eventId = [1, 2] := by
  have h₀ : Traced record (Call.exec .zero) .started (Interleaving.Config.start .started) [] :=
    .start
  have h₁ := h₀.invoke 0 (7, ascii "JOIN", []) (by simp [Interleaving.Config.start])
  have h₂ := h₁.invoke 1 (8, ascii "JOIN", []) (by simp [Interleaving.Config.start])
  have h₃ := h₂.call 0 .fetchAddEventId _ {} rfl
  have h₄ := h₃.call 1 .fetchAddEventId _ {} rfl
  have h₅ := h₄.call 1 .systemClock _ {} rfl
  have h₆ := h₅.call 0 .systemClock _ {} rfl
  have h₇ := h₆.call 0 (.pushEvent _) _ {} rfl
  have h₈ := h₇.call 1 (.pushEvent _) _ {} rfl
  refine ⟨_, _, h₈, rfl, (ordered_iff World.started_fresh h₈).mpr ?_, rfl⟩
  have hnever : ∀ {past : Trace} {m}, ¬ Pushes m → InTurn past m := fun hno h => absurd h hno
  -- when thread 1 pushes, thread 0 has pushed, which drew first
  have hturn : ¬ DrewBefore _ 1 0 :=
    (drewBefore_iff (followed_of_logged World.started_fresh h₇.logged)
      (List.mem_cons_of_mem _ List.mem_cons_self) List.mem_cons_self).not.mpr (by decide : ¬ 2 < 1)
  refine cuts_concat.mpr ⟨cuts_concat.mpr ⟨cuts_concat.mpr ⟨cuts_concat.mpr ⟨cuts_concat.mpr
    ⟨cuts_concat.mpr ⟨cuts_nil, hnever ?_⟩, hnever ?_⟩, hnever ?_⟩, hnever ?_⟩, ?_⟩, ?_⟩
  · rintro ⟨ev, h⟩
    cases h
  · rintro ⟨ev, h⟩
    cases h
  · rintro ⟨ev, h⟩
    cases h
  · rintro ⟨ev, h⟩
    cases h
  · intro _ m' hm' hpushed
    simp only [List.nil_append, List.cons_append, List.mem_cons, List.not_mem_nil, or_false] at hm'
    rcases hm' with rfl | rfl | rfl | rfl
    all_goals
      obtain ⟨ev, h⟩ := hpushed
      cases h
  · intro _ m' hm' hpushed
    rcases List.mem_append.mp hm' with hm' | hm'
    · simp only [List.nil_append, List.cons_append, List.mem_cons, List.not_mem_nil,
        or_false] at hm'
      rcases hm' with rfl | rfl | rfl | rfl
      all_goals
        obtain ⟨ev, h⟩ := hpushed
        cases h
    · rw [List.mem_singleton.mp hm']
      exact hturn

end Run

end EventOrder
end MultiPlayerGame
