import MultiPlayerGame.Library.Interleaving
import MultiPlayerGame.Server.Deeds

/-!
# The order of the event log

`recordEvent` draws its id with a `fetch_add` before it takes the mutex, and pushes the event with
the mutex held.  Two threads may push in the other order than they drew (`exists_disordered`).

This file says what it means that the log is in order (`Ordered`), and what a push does to the order
(`increasing_pushEvent`).  An eviction cannot hide that an event came too late.  It drops the front
of a log, and the two entries at the back that are out of order are still there.

When the log stays in order is said in `Results.EventTurns`, in terms of the order in which the
threads take their steps.  It needs to know which thread holds which id, and for that
`Results.EventIds` follows the ids through.
-/

namespace MultiPlayerGame
namespace EventOrder

open Bytes (ascii)
open GameState (maxEvents)
open Interleaving (Reachable)

/-- What `recordEvent` is called with: a player, a type and data. -/
abbrev Entry := Int32 × Bytes × Bytes

/-- A thread that calls `recordEvent`. -/
def record (entry : Entry) : Handler Unit :=
  RequestHandler.recordEvent entry.1 entry.2.1 entry.2.2

abbrev State := Interleaving.Config Call Call.Ans Entry Unit World

/-- The ids increase from the front of the log to its back. -/
def Increasing (events : List GameEvent) : Prop :=
  events.Pairwise fun a b => a.eventId < b.eventId

/-- **The log is in order.**  The ids increase; the most recent events are the newest ones, newest
last; and the event that an eviction would drop is the oldest. -/
structure Ordered (g : GameState) : Prop where
  increasing : Increasing g.events
  recent : ∀ n, Increasing (g.recentEvents n) ∧ ∃ older, g.events = older ++ g.recentEvents n ∧
    ∀ a ∈ older, ∀ b ∈ g.recentEvents n, a.eventId < b.eventId
  oldest : ∀ a rest, g.events = a :: rest → ∀ b ∈ rest, a.eventId < b.eventId

theorem Ordered.of_increasing {g : GameState} (h : Increasing g.events) : Ordered g where
  increasing := h
  recent := fun n => by
    have hsplit := List.take_append_drop (g.events.length - n) g.events
    have happend := h
    rw [← hsplit] at happend
    obtain ⟨-, hrecent, holder⟩ := List.pairwise_append.mp happend
    exact ⟨hrecent, _, hsplit.symm, holder⟩
  oldest := fun a rest hevents => by
    rw [hevents] at h
    exact (List.pairwise_cons.mp h).1

/-- **Pushing an event** keeps the order exactly if its id is above all in the log. -/
theorem increasing_pushEvent {g : GameState} (h : Increasing g.events) (ev : GameEvent) :
    Increasing (g.pushEvent ev).events ↔ ∀ a ∈ g.events, a.eventId < ev.eventId := by
  have happend : ∀ events : List GameEvent, Increasing events →
      (Increasing (events ++ [ev]) ↔ ∀ a ∈ events, a.eventId < ev.eventId) := by
    intro events hevents
    unfold Increasing at hevents ⊢
    rw [List.pairwise_append]
    simp [hevents]
  unfold GameState.pushEvent
  simp only
  split
  · rename_i hfull
    cases hevents : g.events with
    | nil =>
      rw [hevents] at hfull
      simp [maxEvents] at hfull
    | cons a rest =>
      rw [hevents] at h hfull
      obtain ⟨hoverall, hrest⟩ := List.pairwise_cons.mp h
      rw [List.cons_append, List.tail_cons, happend rest hrest]
      refine ⟨fun hlt b hb => ?_, fun hlt b hb => hlt b (List.mem_cons_of_mem _ hb)⟩
      rcases List.mem_cons.mp hb with rfl | hb
      · -- the log is full, so there is a newer event below the new one
        obtain ⟨c, hc⟩ : ∃ c, c ∈ rest := by
          refine List.exists_mem_of_length_pos ?_
          rw [List.cons_append, List.length_cons, List.length_append] at hfull
          simp only [maxEvents, List.length_singleton] at hfull
          omega
        exact Nat.lt_trans (hoverall c hc) (hlt c hc)
      · exact hlt b hb
  · exact happend g.events h

/-- **Two threads push in the other order than they drew.**  The first one has drawn and not pushed
when the second one draws and pushes. -/
theorem exists_disordered : ∃ x : State,
    Reachable record (Call.exec .zero) .started x ∧
    (x.shared.game.events.map GameEvent.eventId) = [2, 1] ∧ ¬ Increasing x.shared.game.events := by
  have h₀ : Reachable record (Call.exec .zero) .started
      (Interleaving.Config.start .started) := .refl
  have h₁ := h₀.tail (.invoke _ 0 (7, ascii "JOIN", []) (by simp [Interleaving.Config.start]))
  have h₂ := h₁.tail (.invoke _ 1 (8, ascii "JOIN", []) (by simp [Interleaving.Config.start]))
  have h₃ := h₂.tail (.call _ 0 .fetchAddEventId _ {} rfl)
  have h₄ := h₃.tail (.call _ 1 .fetchAddEventId _ {} rfl)
  have h₅ := h₄.tail (.call _ 1 .systemClock _ {} rfl)
  have h₆ := h₅.tail (.call _ 1 (.pushEvent _) _ {} rfl)
  have h₇ := h₆.tail (.call _ 0 .systemClock _ {} rfl)
  have h₈ := h₇.tail (.call _ 0 (.pushEvent _) _ {} rfl)
  refine ⟨_, h₈, rfl, fun hincreasing => ?_⟩
  have hlt := (List.pairwise_cons.mp hincreasing).1 _ List.mem_cons_self
  exact absurd hlt (by decide)

end EventOrder
end MultiPlayerGame
