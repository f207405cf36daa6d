import MultiPlayerGame.Library.Transition
import Mathlib.Logic.Function.Basic
import Mathlib.Data.List.Nodup

/-!
# The thread pool

`ThreadPool` with any number of workers, any number of calls of `submit` and one call of `stop`,
interleaved in any way.  What is one step is what the hardware and the library do in one: taking and
releasing the mutex, a load or a store of `m_stopping`, an evaluation of the predicate that `wait`
is given, releasing the mutex and blocking inside `wait`, a notification, and a push or a pop.  A
worker that is blocked may also wake up without being notified.

A call of `submit` stands for the client it is given, so `κ` is the type of clients; which of them
share a file descriptor does not matter here.  The log keeps what has been done with them.

The sections under the mutex are spelled out step by step, so the interleavings include those in
which `m_stopping` is set while another thread is inside a section.
-/

namespace MultiPlayerGame
namespace ThreadPool

open Transition (System)

/-- Where a worker is in `workerLoop`.  Every place between two steps is one, with the mutex or
without. -/
inductive WorkerPos (κ : Type) where
  /-- before it takes the mutex -/
  | loop
  /-- has the mutex and is about to evaluate the predicate -/
  | checking
  /-- has the mutex and has found the predicate false -/
  | waiting
  /-- blocked in `wait`; has another worker been notified instead since? -/
  | blocked (passedOver : Bool)
  /-- woken up, and about to take the mutex again -/
  | woken
  /-- has the mutex and has found the predicate true -/
  | ready
  /-- has the mutex and is going to return -/
  | leaving
  /-- has the mutex and has popped a task -/
  | popped (task : κ)
  /-- has released the mutex and is about to call the handler -/
  | starting (task : κ)
  /-- in the handler -/
  | handling (task : κ)
  | exited
  deriving DecidableEq, Repr

/-- Where a call of `submit` is. -/
inductive SubmitPos where
  | outside
  /-- has the mutex and is about to load `m_stopping` -/
  | locked
  /-- has the mutex and has closed the client -/
  | refusing
  /-- has the mutex and has found `m_stopping` false -/
  | admitted
  /-- has the mutex and has pushed the task -/
  | pushed
  /-- has released the mutex and is about to notify -/
  | notifying
  | returned (accepted : Bool)
  deriving DecidableEq, Repr

/-- Where the call of `stop` is. -/
inductive StopPos where
  | outside
  /-- has stored `m_stopping` -/
  | stored
  /-- has notified all workers and joins them -/
  | joining
  | returned
  deriving DecidableEq, Repr

/-- What can be done with a client. -/
inductive Event (ω κ : Type) where
  | closed (client : κ)
  | accepted (client : κ)
  | dequeued (worker : ω) (client : κ)
  | called (worker : ω) (client : κ)
  deriving DecidableEq, Repr

structure State (ω κ : Type) where
  /-- who has `m_mutex` -/
  mutex : Option (ω ⊕ κ) := none
  stopping : Bool := false
  tasks : List κ := []
  worker : ω → WorkerPos κ := fun _ => .loop
  submit : κ → SubmitPos := fun _ => .outside
  stop : StopPos := .outside
  log : List (Event ω κ) := []

variable {ω κ : Type} [DecidableEq ω] [DecidableEq κ]

namespace State

def workerAt (s : State ω κ) (w : ω) (p : WorkerPos κ) : State ω κ :=
  { s with worker := Function.update s.worker w p }

def submitAt (s : State ω κ) (c : κ) (p : SubmitPos) : State ω κ :=
  { s with submit := Function.update s.submit c p }

section Worker

omit [DecidableEq κ]

variable (s : State ω κ) (w w' : ω) (p : WorkerPos κ)

@[simp] theorem workerAt_worker : (s.workerAt w p).worker w' = if w' = w then p else s.worker w' :=
  Function.update_apply s.worker w p w'

@[simp] theorem workerAt_submit : (s.workerAt w p).submit = s.submit := rfl

@[simp] theorem workerAt_mutex : (s.workerAt w p).mutex = s.mutex := rfl

@[simp] theorem workerAt_stopping : (s.workerAt w p).stopping = s.stopping := rfl

@[simp] theorem workerAt_tasks : (s.workerAt w p).tasks = s.tasks := rfl

@[simp] theorem workerAt_stop : (s.workerAt w p).stop = s.stop := rfl

@[simp] theorem workerAt_log : (s.workerAt w p).log = s.log := rfl

end Worker

section Submit

omit [DecidableEq ω]

variable (s : State ω κ) (c c' : κ) (q : SubmitPos)

@[simp] theorem submitAt_submit : (s.submitAt c q).submit c' = if c' = c then q else s.submit c' :=
  Function.update_apply s.submit c q c'

@[simp] theorem submitAt_worker : (s.submitAt c q).worker = s.worker := rfl

@[simp] theorem submitAt_mutex : (s.submitAt c q).mutex = s.mutex := rfl

@[simp] theorem submitAt_stopping : (s.submitAt c q).stopping = s.stopping := rfl

@[simp] theorem submitAt_tasks : (s.submitAt c q).tasks = s.tasks := rfl

@[simp] theorem submitAt_stop : (s.submitAt c q).stop = s.stop := rfl

@[simp] theorem submitAt_log : (s.submitAt c q).log = s.log := rfl

end Submit

/-- What a blocked worker does when all are notified. -/
def wake : WorkerPos κ → WorkerPos κ
  | .blocked _ => .woken
  | p => p

/-- What a blocked worker remembers when another one is notified. -/
def passOver : WorkerPos κ → WorkerPos κ
  | .blocked _ => .blocked true
  | p => p

/-- `notify_one` wakes this worker. -/
def notify (s : State ω κ) (w : ω) : State ω κ :=
  { s with worker := fun w' => if w' = w then .woken else passOver (s.worker w') }

/-- `notify_all`.  All workers that are blocked may go on, each when it gets the mutex. -/
def notifyEvery (s : State ω κ) : State ω κ := { s with worker := fun w => wake (s.worker w) }

/-- The predicate of `wait`: `!m_tasks.empty() || m_stopping.load()`.  It is evaluated with the
mutex held, by a worker that is awake. -/
def predicate (s : State ω κ) : Prop := s.tasks ≠ [] ∨ s.stopping = true

end State

/-- **One step**, of a worker, of a call of `submit` or of `stop`. -/
inductive Step : State ω κ → State ω κ → Prop where
  | lock (s : State ω κ) (w : ω) (hw : s.worker w = .loop ∨ s.worker w = .woken)
      (hfree : s.mutex = none) :
      Step s { s.workerAt w .checking with mutex := some (.inl w) }
  | checkFalse (s : State ω κ) (w : ω) (hw : s.worker w = .checking) (h : ¬ s.predicate) :
      Step s (s.workerAt w .waiting)
  | checkTrue (s : State ω κ) (w : ω) (hw : s.worker w = .checking) (h : s.predicate) :
      Step s (s.workerAt w .ready)
  | block (s : State ω κ) (w : ω) (hw : s.worker w = .waiting) :
      Step s { s.workerAt w (.blocked false) with mutex := none }
  | wakeUp (s : State ω κ) (w : ω) (b : Bool) (hw : s.worker w = .blocked b) :
      Step s (s.workerAt w .woken)
  | leave (s : State ω κ) (w : ω) (hw : s.worker w = .ready)
      (hstop : s.stopping = true ∧ s.tasks = []) : Step s (s.workerAt w .leaving)
  | exit (s : State ω κ) (w : ω) (hw : s.worker w = .leaving) :
      Step s { s.workerAt w .exited with mutex := none }
  | pop (s : State ω κ) (w : ω) (c : κ) (rest : List κ) (hw : s.worker w = .ready)
      (htasks : s.tasks = c :: rest) :
      Step s { s.workerAt w (.popped c) with tasks := rest, log := s.log ++ [.dequeued w c] }
  | unlock (s : State ω κ) (w : ω) (c : κ) (hw : s.worker w = .popped c) :
      Step s { s.workerAt w (.starting c) with mutex := none }
  | call (s : State ω κ) (w : ω) (c : κ) (hw : s.worker w = .starting c) :
      Step s { s.workerAt w (.handling c) with log := s.log ++ [.called w c] }
  | handled (s : State ω κ) (w : ω) (c : κ) (hw : s.worker w = .handling c) :
      Step s (s.workerAt w .loop)
  | submitLock (s : State ω κ) (c : κ) (hc : s.submit c = .outside) (hfree : s.mutex = none) :
      Step s { s.submitAt c .locked with mutex := some (.inr c) }
  | refuse (s : State ω κ) (c : κ) (hc : s.submit c = .locked) (h : s.stopping = true) :
      Step s { s.submitAt c .refusing with log := s.log ++ [.closed c] }
  | refused (s : State ω κ) (c : κ) (hc : s.submit c = .refusing) :
      Step s { s.submitAt c (.returned false) with mutex := none }
  | accept (s : State ω κ) (c : κ) (hc : s.submit c = .locked) (h : s.stopping = false) :
      Step s (s.submitAt c .admitted)
  | push (s : State ω κ) (c : κ) (hc : s.submit c = .admitted) :
      Step s { s.submitAt c .pushed with tasks := s.tasks ++ [c], log := s.log ++ [.accepted c] }
  | submitUnlock (s : State ω κ) (c : κ) (hc : s.submit c = .pushed) :
      Step s { s.submitAt c .notifying with mutex := none }
  | notifyOne (s : State ω κ) (c : κ) (w : ω) (b : Bool) (hc : s.submit c = .notifying)
      (hw : s.worker w = .blocked b) :
      Step s ((s.submitAt c (.returned true)).notify w)
  | notifyNone (s : State ω κ) (c : κ) (hc : s.submit c = .notifying)
      (hnone : ∀ w b, s.worker w ≠ .blocked b) : Step s (s.submitAt c (.returned true))
  | store (s : State ω κ) (h : s.stop = .outside) :
      Step s { s with stopping := true, stop := .stored }
  | notifyAll (s : State ω κ) (h : s.stop = .stored) :
      Step s { s.notifyEvery with stop := .joining }
  | joined (s : State ω κ) (h : s.stop = .joining) (hall : ∀ w, s.worker w = .exited) :
      Step s { s with stop := .returned }

/-- The thread pool, started with nothing to do. -/
def pool : System (State ω κ) where
  Start := fun s => s = {}
  Step := Step

/-- Is a worker asleep, or bound to fall asleep in its next step? -/
def WorkerPos.dozing : WorkerPos κ → Bool
  | .waiting | .blocked _ => true
  | _ => false

omit [DecidableEq κ] in
@[simp] theorem dozing_wake (p : WorkerPos κ) : (State.wake p).dozing = true ↔ p = .waiting := by
  cases p <;> simp [State.wake, WorkerPos.dozing]

omit [DecidableEq κ] in
@[simp] theorem dozing_passOver (p : WorkerPos κ) : (State.passOver p).dozing = p.dozing := by
  cases p <;> rfl

/-- A worker dozes off only when it has found the predicate false. -/
theorem Step.dozing {s t : State ω κ} (h : Step s t) (w : ω)
    (hdozing : (t.worker w).dozing = true) : (s.worker w).dozing = true ∨ ¬ s.predicate := by
  cases h with
  | checkFalse w' hw hno => exact Or.inr hno
  | block w' hw =>
    simp only [State.workerAt_worker] at hdozing
    split at hdozing
    · rename_i heq
      exact Or.inl (by rw [heq, hw]; rfl)
    · exact Or.inl hdozing
  | notifyOne c w' b hc hw =>
    simp only [State.notify, State.submitAt_worker] at hdozing
    split at hdozing
    · cases hdozing
    · exact Or.inl (by rwa [dozing_passOver] at hdozing)
  | notifyAll h =>
    have hwaiting := (dozing_wake _).mp hdozing
    exact Or.inl (by rw [hwaiting]; rfl)
  | submitLock | refuse | refused | accept | push | submitUnlock | notifyNone | store | joined =>
    exact Or.inl hdozing
  | _ =>
    simp only [State.workerAt_worker] at hdozing
    split at hdozing
    · cases hdozing
    · exact Or.inl hdozing

end ThreadPool
end MultiPlayerGame
