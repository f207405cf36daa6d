import MultiPlayerGame.Results.Tasks

/-!
# No task is left to sleeping workers

`submit` notifies after it has released the mutex, so its notification may come late, may reach
nobody, and may wake a worker whose task another one has taken.  Still no task is forgotten: while
there is one, some worker is up and about, or some `submit` has yet to notify (`Attended`).

A worker falls asleep in two steps, both with the mutex held.  At the first it has found the queue
empty, and until the second nobody can push (`Idle`).  A notification that reaches nobody is
harmless for the same reason: no worker is asleep then, and one that is about to fall asleep would
have found the queue empty.
-/

namespace MultiPlayerGame
namespace Dispatch

open ThreadPool
open Transition (Reachable)

variable {ω κ : Type} [DecidableEq ω] [DecidableEq κ] {s t : State ω κ}

/-- Between its push and its notification.  The mutex has been given back in the meantime, so
anything may happen before the notification. -/
def Announcing (q : SubmitPos) : Prop := q = .pushed ∨ q = .notifying

/-- A worker that is going to block has found the queue empty, and it still is. -/
def Idle (s : State ω κ) : Prop := ∀ w, s.worker w = .waiting → s.tasks = []

/-- While there is a task, a worker is not asleep or a notification is to come. -/
def Attended (s : State ω κ) : Prop :=
  s.tasks ≠ [] → (∃ w, (s.worker w).dozing = false) ∨ ∃ c, Announcing (s.submit c)

/-- The steps that put a worker between its evaluation of the predicate and its blocking. -/
theorem waiting_step (h : Step s t) {w : ω} (hw : t.worker w = .waiting) :
    s.worker w = .waiting ∨ ¬ s.predicate ∧ t.tasks = s.tasks := by
  cases h with
  | checkFalse w' hw' hno => exact Or.inr ⟨hno, rfl⟩
  | notifyOne c w' b hc hw' =>
    simp only [State.notify, State.submitAt_worker] at hw
    split at hw
    · cases hw
    · cases hbefore : s.worker w with
      | waiting => exact Or.inl rfl
      | _ => rw [hbefore] at hw; cases hw
  | notifyAll hstop =>
    cases hbefore : s.worker w with
    | waiting => exact Or.inl rfl
    | _ => simp [State.notifyEvery, State.wake, hbefore] at hw
  | submitLock | refuse | refused | accept | push | submitUnlock | notifyNone | store | joined =>
    exact Or.inl hw
  | _ =>
    simp only [State.workerAt_worker] at hw
    split at hw
    · cases hw
    · exact Or.inl hw

theorem idle_step (hexclusive : s.Exclusive) (h : Step s t) (hs : Idle s) : Idle t := by
  intro w hw
  rcases waiting_step h hw with hbefore | ⟨hno, htasks⟩
  · have hempty := hs w hbefore
    rcases h.tasks with htasks | ⟨c, hc⟩ | ⟨c, htasks⟩
    · rw [htasks, hempty]
    · -- two threads would be inside
      have hworker := (hexclusive (.inl w)).mp (by rw [State.inside, hbefore]; rfl)
      have hsubmit := (hexclusive (.inr c)).mp (by rw [State.inside, hc]; rfl)
      rw [hworker] at hsubmit
      cases hsubmit
    · rw [hempty] at htasks
      cases htasks
  · rw [htasks]
    by_contra htask
    exact hno (Or.inl htask)

/-- **One step.**  A task comes with a notification, a worker that takes one is awake, and a worker
only falls asleep when there is no task. -/
theorem attended_step [Nonempty ω] (h : Step s t) (hidle : Idle s) (hs : Attended s) :
    Attended t := by
  intro htask
  cases h with
  | lock w | checkTrue w | wakeUp w | leave w | exit w | pop w | unlock w | call w | handled w =>
    exact Or.inl ⟨w, by simp [WorkerPos.dozing]⟩
  | checkFalse w hw hno => exact absurd (Or.inl htask) hno
  | block w hw => exact absurd (hidle w hw) htask
  | push c hc => exact Or.inr ⟨c, Or.inl (by simp)⟩
  | submitUnlock c hc => exact Or.inr ⟨c, Or.inr (by simp)⟩
  | notifyOne c w b hc hw => exact Or.inl ⟨w, by simp [State.notify, WorkerPos.dozing]⟩
  | notifyNone c hc hnone =>
    obtain ⟨w⟩ := ‹Nonempty ω›
    refine Or.inl ⟨w, ?_⟩
    change (s.worker w).dozing = false
    cases hw : s.worker w with
    | blocked b => exact absurd hw (hnone w b)
    | waiting => exact absurd (hidle w hw) htask
    | _ => rfl
  | submitLock c hc | refuse c hc | refused c hc | accept c hc =>
    rcases hs htask with hawake | ⟨c', hc'⟩
    · exact Or.inl hawake
    · have hne : c' ≠ c := fun heq => by
        rw [heq, hc] at hc'
        rcases hc' with hno | hno <;> cases hno
      exact Or.inr ⟨c', by simpa [hne] using hc'⟩
  | notifyAll hstop =>
    refine (hs htask).imp_left fun hawake => ?_
    obtain ⟨w, hw⟩ := hawake
    refine ⟨w, ?_⟩
    rw [← Bool.not_eq_true] at hw ⊢
    refine fun hdozing => hw ?_
    have hwaiting : s.worker w = .waiting := (dozing_wake _).mp hdozing
    rw [hwaiting]
    rfl
  | store hstop | joined hstop => exact hs htask

theorem idle_of_reachable (h : Reachable pool s) : Idle s := by
  refine h.invariant_of (fun s hstart => ?_) fun s t hs hidle hstep =>
    idle_step (exclusive_of_reachable hs) hstep hidle
  rw [hstart]
  exact fun _ _ => rfl

theorem attended_of_reachable [Nonempty ω] (h : Reachable pool s) : Attended s := by
  refine h.invariant_of (fun s hstart => ?_) fun s t hs hattended hstep =>
    attended_step hstep (idle_of_reachable hs) hattended
  rw [hstart]
  exact fun hno => absurd rfl hno

/-- **No lost wake-up.**  There is never a task in the queue while every worker is blocked and no
`submit` is between its push and its notification. -/
theorem no_task_forgotten [Nonempty ω] {s : State ω κ} (h : Reachable pool s) :
    ¬ (s.tasks ≠ [] ∧ (∀ w, ∃ b, s.worker w = .blocked b) ∧ ∀ c, ¬ Announcing (s.submit c)) := by
  rintro ⟨htask, hblocked, hquiet⟩
  rcases attended_of_reachable h htask with ⟨w, hawake⟩ | ⟨c, hc⟩
  · obtain ⟨b, hb⟩ := hblocked w
    rw [hb] at hawake
    cases hawake
  · exact hquiet c hc

/-- The only worker is blocked and a task is pushed: the notification is still to come. -/
theorem no_task_forgotten_pushed : ∃ s : State Unit Unit, Reachable pool s ∧ s.tasks ≠ [] ∧
    (∀ w, ∃ b, s.worker w = .blocked b) ∧ ∃ c, Announcing (s.submit c) := by
  have h₀ : Reachable pool ({} : State Unit Unit) := .start rfl
  have h₁ := h₀.step (.lock _ () (Or.inl rfl) rfl)
  have h₂ := h₁.step (.checkFalse _ () (by simp) (by simp [State.predicate]))
  have h₃ := h₂.step (.block _ () (by simp))
  have h₄ := h₃.step (.submitLock _ () rfl rfl)
  have h₅ := h₄.step (.accept _ () (by simp) rfl)
  have h₆ := h₅.step (.push _ () (by simp))
  refine ⟨_, h₆, by simp, fun w => ⟨false, by simp⟩, ?_⟩
  by_contra hno
  exact no_task_forgotten h₆ ⟨by simp, fun w => ⟨false, by simp⟩, fun c hc => hno ⟨c, hc⟩⟩

end Dispatch
end MultiPlayerGame
