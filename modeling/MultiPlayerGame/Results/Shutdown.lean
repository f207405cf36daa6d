import MultiPlayerGame.Server.ThreadPool

/-!
# A worker that misses the shutdown

`stop` stores `m_stopping` and notifies all workers without holding the mutex.  A worker evaluates
the predicate of `wait` with the mutex held and blocks in a step of its own.  If the store and the
notification both fall between the two, the worker has found the predicate false, is not blocked
yet when everybody is woken, and then goes to sleep: nobody is going to wake it, because `submit`
refuses all further work, and `stop` waits for it in `join`.

This is the only way.  If no worker stands between its evaluation and its blocking at the moment of
the notification (`NoneWaiting`), then no worker sleeps while `stop` joins (`shutdown_iff`): whoever
evaluates the predicate after the store finds it true.
-/

namespace MultiPlayerGame
namespace Shutdown

open ThreadPool
open Transition (System Reachable)

variable {ω κ : Type} [DecidableEq ω] [DecidableEq κ] {s t : State ω κ}

/-- `stop` joins, and a worker is blocked that has not been notified since it blocked. -/
def Missed (s : State ω κ) : Prop := s.stop = .joining ∧ ∃ w, s.worker w = .blocked false

/-- If this step notifies all workers, then none of them has found the predicate false without
having blocked yet. -/
def NoneWaiting (s t : State ω κ) : Prop :=
  s.stop = .stored → t.stop = .joining → ∀ w, s.worker w ≠ .waiting

/-- From its notification on, `m_stopping` is set and no worker dozes. -/
structure Awake (s : State ω κ) : Prop where
  stopping : s.stop ≠ .outside → s.stopping = true
  awake : s.stop = .joining ∨ s.stop = .returned → ∀ w, (s.worker w).dozing = false

theorem stopping_step (h : Step s t) (hs : s.stop ≠ .outside → s.stopping = true) :
    t.stop ≠ .outside → t.stopping = true := by
  cases h with
  | store => exact fun _ => rfl
  | notifyAll hstop => exact fun _ => hs (by rw [hstop]; simp)
  | joined hstop => exact fun _ => hs (by rw [hstop]; simp)
  | _ => exact hs

/-- The steps by which `stop` gets ahead. -/
theorem stop_step (h : Step s t) (ht : t.stop = .joining ∨ t.stop = .returned) :
    s.stop = .joining ∨ s.stop = .returned ∨
      s.stop = .stored ∧ t.stop = .joining ∧ ∀ w, t.worker w = State.wake (s.worker w) := by
  cases h with
  | store => rcases ht with ht | ht <;> cases ht
  | notifyAll hstop => exact Or.inr (Or.inr ⟨hstop, rfl, fun _ => rfl⟩)
  | joined hstop => exact Or.inl hstop
  | _ => exact ht.imp_right Or.inl

/-- **One step**, if no worker is between its evaluation and its blocking when all are notified. -/
theorem awake_step (h : Step s t) (hnone : NoneWaiting s t) (hs : Awake s) : Awake t := by
  refine ⟨stopping_step h hs.stopping, fun ht w => ?_⟩
  rw [← Bool.not_eq_true]
  intro hdozing
  have hbefore : s.stop = .joining ∨ s.stop = .returned → False := fun hstop => by
    have hstopping := hs.stopping (by rcases hstop with h | h <;> rw [h] <;> simp)
    rcases h.dozing w hdozing with hwas | hno
    · rw [hs.awake hstop w] at hwas
      cases hwas
    · exact hno (Or.inr hstopping)
  rcases stop_step h ht with hstop | hstop | ⟨hstored, hjoining, hwake⟩
  · exact hbefore (Or.inl hstop)
  · exact hbefore (Or.inr hstop)
  · -- everybody who was blocked is woken now
    rw [hwake, dozing_wake] at hdozing
    exact hnone hstored hjoining w hdozing

omit [DecidableEq ω] [DecidableEq κ] in
theorem awake_start : Awake ({} : State ω κ) :=
  ⟨fun h => absurd rfl h, fun h => by rcases h with h | h <;> cases h⟩

/-- **The shutdown is missed exactly when it catches a worker between its evaluation of the
predicate and its blocking.**  In a run in which that does not happen no worker sleeps through the
notification; and wherever it happens, the worker's next step is to fall asleep for good. -/
theorem shutdown_iff :
    (∀ s : State ω κ, Reachable (pool.restrict NoneWaiting) s → ¬ Missed s) ∧
      ∀ s t : State ω κ, Reachable pool s → Step s t → ¬ NoneWaiting s t →
        ∃ u, Step t u ∧ Missed u := by
  constructor
  · intro s hs hmissed
    have hawake : Awake s := hs.invariant (fun s hstart => by rw [hstart]; exact awake_start)
      fun s t hs hstep => awake_step hstep.1 hstep.2 hs
    obtain ⟨hjoining, w, hblocked⟩ := hmissed
    have hdozing := hawake.awake (Or.inl hjoining) w
    rw [hblocked] at hdozing
    cases hdozing
  · intro s t _ hstep hsome
    obtain ⟨hstored, hjoining, w, hwaiting⟩ : s.stop = .stored ∧ t.stop = .joining ∧
        ∃ w, s.worker w = .waiting := by
      simpa [NoneWaiting] using hsome
    have hwoken : t.worker w = .waiting := by
      rcases stop_step hstep (Or.inl hjoining) with hstop | hstop | ⟨-, -, hwake⟩
      · rw [hstored] at hstop
        cases hstop
      · rw [hstored] at hstop
        cases hstop
      · rw [hwake, hwaiting]
        rfl
    exact ⟨_, .block t w hwoken, hjoining, w, by simp⟩

/-- One worker is blocked in time, and the shutdown reaches it. -/
theorem shutdown_iff_blocked : ∃ s : State Unit Empty,
    Reachable (pool.restrict NoneWaiting) s ∧ s.stop = .joining ∧ ¬ Missed s := by
  have h₀ : Reachable (pool.restrict NoneWaiting) ({} : State Unit Empty) := .start rfl
  have h₁ := h₀.step ⟨.lock _ () (Or.inl rfl) rfl, fun h => by cases h⟩
  have h₂ := h₁.step ⟨.checkFalse _ () (by simp) (by simp [State.predicate]), fun h => by cases h⟩
  have h₃ := h₂.step ⟨.block _ () (by simp), fun h => by cases h⟩
  have h₄ := h₃.step ⟨.store _ rfl, fun h => by cases h⟩
  have h₅ := h₄.step ⟨.notifyAll _ rfl, fun _ _ w => by simp⟩
  exact ⟨_, h₅, rfl, shutdown_iff.1 _ h₅⟩

/-- One worker finds nothing to do; `stop` sets the flag and notifies; the worker blocks. -/
theorem exists_missed : ∃ s : State Unit Empty, Reachable pool s ∧ Missed s := by
  have h₀ : Reachable pool ({} : State Unit Empty) := .start rfl
  have h₁ := h₀.step (.lock _ () (Or.inl rfl) rfl)
  have h₂ := h₁.step (.checkFalse _ () (by simp) (by simp [State.predicate]))
  have h₃ := h₂.step (.store _ rfl)
  have h₄ := h₃.step (.notifyAll _ rfl)
  have h₅ := h₄.step (.block _ () (by simp [State.notifyEvery, State.wake]))
  exact ⟨_, h₅, rfl, (), by simp⟩

end Shutdown
end MultiPlayerGame
