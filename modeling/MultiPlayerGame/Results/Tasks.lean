import MultiPlayerGame.Server.ThreadPool

/-!
# Every accepted client is handled once

What happens to a client is written in the log: `submit` closes it or puts it into the queue, a
worker takes it out, and the same worker calls the handler.  Two accounts are kept.

* *The books* (`Books`).  The clients accepted are those taken out followed by those still in the
  queue, in this order; each call of `submit` that has decided has accepted or closed its client,
  once; and a worker has called the handler for what it has taken out, once, except for a client it
  holds at the moment.  Only four steps write to the log (`Step.recorded`).
* *The last one out* (`Shut`).  A worker decides to return with the mutex held.  So no `submit` is
  between its load of `m_stopping` and its push then; and whoever loads `m_stopping` afterwards
  finds it set.  Hence the queue is empty from the first exit on, although `stop` sets the flag
  without the mutex.

## Why no client is lost

The queue is a list, of which `submit` writes the end and the workers take the front, both with the
mutex held.  Hence the books: what has been accepted is what has been taken out and then what is in
the queue, in this order, and this is one equation that each of the four steps that write to the log
keeps.  A client is counted in the equation as often as it was accepted, which is once for each call
of `submit` that has decided to.

A client could still be lost if it were put into the queue when no worker is left to take it out.
`stop` sets the flag without the mutex, so a `submit` that has loaded the flag before may push
afterwards.  It holds the mutex from the load to the push, though.  A worker that returns holds it
too when it finds the queue empty and the flag set, so the push came before, and then the queue was
not empty, or the load comes later, and then the flag is set (`Shut`).  Whoever comes to push in
time is therefore served by a worker that has not returned yet.
-/

namespace MultiPlayerGame

namespace ThreadPool

variable {ω κ : Type} {s t : State ω κ}

/-! ## Who has the mutex -/

def WorkerPos.inside : WorkerPos κ → Bool
  | .checking | .waiting | .ready | .leaving | .popped _ => true
  | _ => false

def SubmitPos.inside : SubmitPos → Bool
  | .locked | .refusing | .admitted | .pushed => true
  | _ => false

/-- Is this thread inside a section under the mutex? -/
def State.inside (s : State ω κ) : ω ⊕ κ → Bool
  | .inl w => (s.worker w).inside
  | .inr c => (s.submit c).inside

/-- The mutex is held by the thread that is inside a section, and by no other. -/
def State.Exclusive (s : State ω κ) : Prop := ∀ x, s.inside x = true ↔ s.mutex = some x

theorem State.Exclusive.acquire (h : s.Exclusive) {x : ω ⊕ κ} (hfree : s.mutex = none)
    (hx : t.inside x = true) (hother : ∀ y, y ≠ x → t.inside y = s.inside y)
    (hmutex : t.mutex = some x) : t.Exclusive := by
  intro y
  rw [hmutex]
  by_cases hy : y = x
  · rw [hy]
    exact iff_of_true hx rfl
  · rw [hother y hy, h y, hfree]
    exact iff_of_false (by simp) (by simpa using Ne.symm hy)

theorem State.Exclusive.release (h : s.Exclusive) {x : ω ⊕ κ} (hx : s.inside x = true)
    (hx' : t.inside x = false) (hother : ∀ y, y ≠ x → t.inside y = s.inside y)
    (hmutex : t.mutex = none) : t.Exclusive := by
  intro y
  rw [hmutex]
  refine iff_of_false ?_ (by simp)
  by_cases hy : y = x
  · rw [hy, hx']
    simp
  · rw [hother y hy, h y, (h x).mp hx]
    simpa using Ne.symm hy

theorem State.Exclusive.keep (h : s.Exclusive) {x : ω ⊕ κ} (hx : t.inside x = s.inside x)
    (hother : ∀ y, y ≠ x → t.inside y = s.inside y) (hmutex : t.mutex = s.mutex) :
    t.Exclusive := by
  intro y
  rw [hmutex, ← h y]
  by_cases hy : y = x
  · rw [hy, hx]
  · rw [hother y hy]

@[simp] theorem inside_wake (p : WorkerPos κ) : (State.wake p).inside = p.inside := by
  cases p <;> rfl

@[simp] theorem inside_passOver (p : WorkerPos κ) : (State.passOver p).inside = p.inside := by
  cases p <;> rfl

theorem inside_notifyEvery (s : State ω κ) (y : ω ⊕ κ) : s.notifyEvery.inside y = s.inside y := by
  cases y with
  | inl w => simp [State.inside, State.notifyEvery]
  | inr c => rfl

/-- Has the worker decided to return? -/
def WorkerPos.gone : WorkerPos κ → Bool
  | .leaving | .exited => true
  | _ => false

@[simp] theorem gone_wake (p : WorkerPos κ) : (State.wake p).gone = p.gone := by
  cases p <;> rfl

@[simp] theorem gone_passOver (p : WorkerPos κ) : (State.passOver p).gone = p.gone := by
  cases p <;> rfl

variable [DecidableEq ω] [DecidableEq κ]

omit [DecidableEq κ] in
theorem inside_workerAt (s : State ω κ) (w : ω) (p : WorkerPos κ) (y : ω ⊕ κ) (hy : y ≠ .inl w) :
    (s.workerAt w p).inside y = s.inside y := by
  cases y with
  | inl w' =>
    have hw : w' ≠ w := fun heq => hy (congrArg _ heq)
    simp [State.inside, hw]
  | inr c => rfl

omit [DecidableEq ω] in
theorem inside_submitAt (s : State ω κ) (c : κ) (q : SubmitPos) (y : ω ⊕ κ) (hy : y ≠ .inr c) :
    (s.submitAt c q).inside y = s.inside y := by
  cases y with
  | inl w => rfl
  | inr c' =>
    have hc : c' ≠ c := fun heq => hy (congrArg _ heq)
    simp [State.inside, hc]

omit [DecidableEq κ] in
theorem inside_notify (s : State ω κ) {w : ω} (hw : (s.worker w).inside = false) (y : ω ⊕ κ) :
    (s.notify w).inside y = s.inside y := by
  cases y with
  | inl w' =>
    by_cases heq : w' = w
    · subst heq
      rw [State.inside, State.inside, hw]
      simp [State.notify, WorkerPos.inside]
    · simp [State.inside, State.notify, heq]
  | inr c => rfl

/-- **The mutex is a mutex.**  A thread enters a section only when the mutex is free, and leaves it
when it gives the mutex back. -/
theorem Step.exclusive (h : Step s t) (hs : s.Exclusive) : t.Exclusive := by
  cases h with
  | lock w hw hfree =>
    refine hs.acquire hfree ?_ (inside_workerAt s w _) rfl
    simp [State.inside, WorkerPos.inside]
  | block w hw | exit w hw | unlock w c hw =>
    refine hs.release ?_ ?_ (inside_workerAt s w _) rfl
    · simp [State.inside, hw, WorkerPos.inside]
    · simp [State.inside, WorkerPos.inside]
  | checkFalse w hw | checkTrue w hw | wakeUp w b hw | leave w hw | pop w c rest hw
  | call w c hw | handled w c hw =>
    refine hs.keep ?_ (inside_workerAt s w _) rfl
    simp [State.inside, hw, WorkerPos.inside]
  | submitLock c hc hfree =>
    refine hs.acquire hfree ?_ (inside_submitAt s c _) rfl
    simp [State.inside, SubmitPos.inside]
  | refused c hc | submitUnlock c hc =>
    refine hs.release ?_ ?_ (inside_submitAt s c _) rfl
    · simp [State.inside, hc, SubmitPos.inside]
    · simp [State.inside, SubmitPos.inside]
  | refuse c hc | accept c hc | push c hc | notifyNone c hc =>
    refine hs.keep ?_ (inside_submitAt s c _) rfl
    simp [State.inside, hc, SubmitPos.inside]
  | notifyOne c w b hc hw =>
    have hsubmit : (s.submitAt c (.returned true)).Exclusive := by
      refine hs.keep ?_ (inside_submitAt s c _) rfl
      simp [State.inside, hc, SubmitPos.inside]
    intro y
    rw [inside_notify _ (by simp [hw, WorkerPos.inside])]
    exact hsubmit y
  | notifyAll hstop =>
    intro y
    exact (iff_of_eq (congrArg (· = true) (inside_notifyEvery s y))).trans (hs y)
  | store hstop | joined hstop => exact hs

theorem exclusive_of_reachable (h : Transition.Reachable pool s) : s.Exclusive := by
  refine h.invariant (fun s hstart => ?_) fun s t hs hstep => hstep.exclusive hs
  rw [hstart]
  intro x
  cases x with
  | inl w => exact iff_of_false (by simp [State.inside, WorkerPos.inside]) (by simp)
  | inr c => exact iff_of_false (by simp [State.inside, SubmitPos.inside]) (by simp)

/-! ## What one step can do -/

theorem Step.stopping (h : Step s t) (hs : s.stopping = true) : t.stopping = true := by
  cases h with
  | store => rfl
  | _ => exact hs

/-- Tasks are appended by `submit` and taken from the front by workers. -/
theorem Step.tasks (h : Step s t) :
    t.tasks = s.tasks ∨ (∃ c, s.submit c = .admitted) ∨ ∃ c, s.tasks = c :: t.tasks := by
  cases h with
  | push c hc => exact Or.inr (Or.inl ⟨c, hc⟩)
  | pop w c rest hw htasks => exact Or.inr (Or.inr ⟨c, htasks⟩)
  | _ => exact Or.inl rfl

/-- Nobody is admitted once the flag is set. -/
theorem Step.admitted (h : Step s t) {c : κ} (hc : t.submit c = .admitted) :
    s.submit c = .admitted ∨ s.stopping = false := by
  cases h with
  | accept c' hc' hno => exact Or.inr hno
  | submitLock c' | refuse c' | refused c' | push c' | submitUnlock c' | notifyNone c'
  | notifyOne c' =>
    simp only [State.notify, State.submitAt_submit] at hc
    split at hc
    · cases hc
    · exact Or.inl hc
  | _ => exact Or.inl hc

/-- A worker decides to return when the flag is set and the queue is empty. -/
theorem Step.gone (h : Step s t) {w : ω} (hw : (t.worker w).gone = true) :
    (s.worker w).gone = true ∨ s.worker w = .ready ∧ s.stopping = true ∧ s.tasks = [] := by
  cases h with
  | leave w' hready hstop =>
    simp only [State.workerAt_worker] at hw
    split at hw
    · rename_i heq
      exact Or.inr ⟨by rw [heq, hready], hstop⟩
    · exact Or.inl hw
  | exit w' hleaving =>
    simp only [State.workerAt_worker] at hw
    split at hw
    · rename_i heq
      exact Or.inl (by rw [heq, hleaving]; rfl)
    · exact Or.inl hw
  | notifyOne c w' b hc hblocked =>
    simp only [State.notify, State.submitAt_worker] at hw
    split at hw
    · cases hw
    · exact Or.inl (by rwa [gone_passOver] at hw)
  | notifyAll => exact Or.inl (by rwa [State.notifyEvery, gone_wake] at hw)
  | submitLock | refuse | refused | accept | push | submitUnlock | notifyNone | store | joined =>
    exact Or.inl hw
  | _ =>
    simp only [State.workerAt_worker] at hw
    split at hw
    · cases hw
    · exact Or.inl hw

/-! ## The log -/

def closed (log : List (Event ω κ)) : List κ :=
  log.filterMap fun
    | .closed c => some c
    | _ => none

def accepted (log : List (Event ω κ)) : List κ :=
  log.filterMap fun
    | .accepted c => some c
    | _ => none

def dequeued (log : List (Event ω κ)) : List (ω × κ) :=
  log.filterMap fun
    | .dequeued w c => some (w, c)
    | _ => none

def called (log : List (Event ω κ)) : List (ω × κ) :=
  log.filterMap fun
    | .called w c => some (w, c)
    | _ => none

/-- Has this call of `submit` put its client into the queue? -/
def SubmitPos.accepted : SubmitPos → Bool
  | .pushed | .notifying | .returned true => true
  | _ => false

/-- Has this call of `submit` closed its client? -/
def SubmitPos.refused : SubmitPos → Bool
  | .refusing | .returned false => true
  | _ => false

/-- The client that a worker has taken out of the queue and not called the handler for yet. -/
def WorkerPos.held : WorkerPos κ → Option κ
  | .popped c | .starting c => some c
  | _ => none

omit [DecidableEq κ] in
theorem held_wake (p : WorkerPos κ) : (State.wake p).held = p.held := by
  cases p <;> rfl

omit [DecidableEq κ] in
theorem held_passOver (p : WorkerPos κ) : (State.passOver p).held = p.held := by
  cases p <;> rfl

/-- **What a step does to the log and the queue.**  Only four write to the log, and the others
change nothing that the log records. -/
inductive Recorded (s t : State ω κ) : Prop where
  | silent (hlog : t.log = s.log) (htasks : t.tasks = s.tasks)
      (hsubmit : ∀ c, (t.submit c).accepted = (s.submit c).accepted ∧
        (t.submit c).refused = (s.submit c).refused)
      (hworker : ∀ w, (t.worker w).held = (s.worker w).held)
  | closed (c : κ) (hc : s.submit c = .locked)
      (hsubmit : t.submit = (s.submitAt c .refusing).submit)
      (hworker : t.worker = s.worker) (htasks : t.tasks = s.tasks)
      (hlog : t.log = s.log ++ [.closed c])
  | accepted (c : κ) (hc : s.submit c = .admitted)
      (hsubmit : t.submit = (s.submitAt c .pushed).submit) (hworker : t.worker = s.worker)
      (htasks : t.tasks = s.tasks ++ [c]) (hlog : t.log = s.log ++ [.accepted c])
  | dequeued (w : ω) (c : κ) (hw : s.worker w = .ready)
      (hworker : t.worker = (s.workerAt w (.popped c)).worker) (hsubmit : t.submit = s.submit)
      (htasks : s.tasks = c :: t.tasks) (hlog : t.log = s.log ++ [.dequeued w c])
  | called (w : ω) (c : κ) (hw : s.worker w = .starting c)
      (hworker : t.worker = (s.workerAt w (.handling c)).worker) (hsubmit : t.submit = s.submit)
      (htasks : t.tasks = s.tasks) (hlog : t.log = s.log ++ [.called w c])

omit [DecidableEq κ] in
theorem held_workerAt {w : ω} {p : WorkerPos κ} (hp : p.held = (s.worker w).held) (w' : ω) :
    ((s.workerAt w p).worker w').held = (s.worker w').held := by
  rw [State.workerAt_worker]
  split
  · rename_i heq
    rw [heq, hp]
  · rfl

omit [DecidableEq ω] in
theorem flags_submitAt {c : κ} {q : SubmitPos} (hq : q.accepted = (s.submit c).accepted)
    (hq' : q.refused = (s.submit c).refused) (c' : κ) :
    ((s.submitAt c q).submit c').accepted = (s.submit c').accepted ∧
      ((s.submitAt c q).submit c').refused = (s.submit c').refused := by
  rw [State.submitAt_submit]
  split
  · rename_i heq
    rw [heq]
    exact ⟨hq, hq'⟩
  · exact ⟨rfl, rfl⟩

theorem Step.recorded (h : Step s t) : Recorded s t := by
  cases h with
  | refuse c hc => exact .closed c hc rfl rfl rfl rfl
  | push c hc => exact .accepted c hc rfl rfl rfl rfl
  | pop w c rest hw htasks => exact .dequeued w c hw rfl rfl htasks rfl
  | call w c hw => exact .called w c hw rfl rfl rfl rfl
  | lock w hw =>
    refine .silent rfl rfl (fun _ => ⟨rfl, rfl⟩) (held_workerAt ?_)
    rcases hw with hw | hw <;> rw [hw] <;> rfl
  | checkFalse w hw | checkTrue w hw | block w hw | wakeUp w b hw | leave w hw | exit w hw
  | unlock w c hw | handled w c hw =>
    exact .silent rfl rfl (fun _ => ⟨rfl, rfl⟩) (held_workerAt (by rw [hw]; rfl))
  | submitLock c hc | refused c hc | accept c hc | submitUnlock c hc | notifyNone c hc =>
    exact .silent rfl rfl (flags_submitAt (by rw [hc]; rfl) (by rw [hc]; rfl)) fun _ => rfl
  | notifyOne c w b hc hw =>
    refine .silent rfl rfl (flags_submitAt (by rw [hc]; rfl) (by rw [hc]; rfl)) fun w' => ?_
    simp only [State.notify, State.submitAt_worker]
    split
    · rename_i heq
      rw [heq, hw]
      rfl
    · exact held_passOver _
  | notifyAll hstop => exact .silent rfl rfl (fun _ => ⟨rfl, rfl⟩) fun w => held_wake _
  | store hstop | joined hstop => exact .silent rfl rfl (fun _ => ⟨rfl, rfl⟩) fun _ => rfl

end ThreadPool

namespace Tasks

open ThreadPool
open Transition (Reachable)

variable {ω κ : Type} [DecidableEq ω] [DecidableEq κ] {s t : State ω κ}

/-! ## The books -/

/-- **The books of a state.**  What has been accepted is what was taken out and what is in the
queue, and every call and every worker has an account of its own. -/
structure Books (s : State ω κ) : Prop where
  order : accepted s.log = (dequeued s.log).map Prod.snd ++ s.tasks
  accepted : ∀ c, (accepted s.log).count c = if (s.submit c).accepted then 1 else 0
  closed : ∀ c, (closed s.log).count c = if (s.submit c).refused then 1 else 0
  called : ∀ w c, (called s.log).count (w, c) + (if (s.worker w).held = some c then 1 else 0) =
    (dequeued s.log).count (w, c)

theorem books_step (h : Recorded s t) (hs : Books s) : Books t := by
  cases h with
  | silent hlog htasks hsubmit hworker =>
    refine ⟨?_, fun c => ?_, fun c => ?_, fun w c => ?_⟩
    · rw [hlog, htasks]
      exact hs.order
    · rw [hlog, (hsubmit c).1]
      exact hs.accepted c
    · rw [hlog, (hsubmit c).2]
      exact hs.closed c
    · rw [hlog, hworker w]
      exact hs.called w c
  | closed c hc hsubmit hworker htasks hlog =>
    obtain ⟨haccepted, hclosed, hdequeued, hcalled⟩ :
        ThreadPool.accepted t.log = ThreadPool.accepted s.log ∧
        ThreadPool.closed t.log = ThreadPool.closed s.log ++ [c] ∧
        dequeued t.log = dequeued s.log ∧
        ThreadPool.called t.log = ThreadPool.called s.log := by
      simp [ThreadPool.accepted, ThreadPool.closed, dequeued, ThreadPool.called, hlog]
    refine ⟨?_, fun c' => ?_, fun c' => ?_, fun w c' => ?_⟩
    · rw [haccepted, hdequeued, htasks]
      exact hs.order
    · rw [haccepted, hs.accepted, hsubmit, State.submitAt_submit]
      by_cases heq : c' = c
      · rw [if_pos heq, heq, hc]
        rfl
      · rw [if_neg heq]
    · rw [hclosed, List.count_append, List.count_singleton, hs.closed, hsubmit,
        State.submitAt_submit]
      by_cases heq : c' = c
      · rw [if_pos heq, heq, hc, beq_self_eq_true]
        rfl
      · rw [if_neg heq, beq_false_of_ne (Ne.symm heq)]
        rfl
    · rw [hcalled, hdequeued, hworker]
      exact hs.called w c'
  | accepted c hc hsubmit hworker htasks hlog =>
    obtain ⟨haccepted, hclosed, hdequeued, hcalled⟩ :
        ThreadPool.accepted t.log = ThreadPool.accepted s.log ++ [c] ∧
        ThreadPool.closed t.log = ThreadPool.closed s.log ∧
        dequeued t.log = dequeued s.log ∧
        ThreadPool.called t.log = ThreadPool.called s.log := by
      simp [ThreadPool.accepted, ThreadPool.closed, dequeued, ThreadPool.called, hlog]
    refine ⟨?_, fun c' => ?_, fun c' => ?_, fun w c' => ?_⟩
    · rw [haccepted, hdequeued, htasks, hs.order, List.append_assoc]
    · rw [haccepted, List.count_append, List.count_singleton, hs.accepted, hsubmit,
        State.submitAt_submit]
      by_cases heq : c' = c
      · rw [if_pos heq, heq, hc, beq_self_eq_true]
        rfl
      · rw [if_neg heq, beq_false_of_ne (Ne.symm heq)]
        rfl
    · rw [hclosed, hs.closed, hsubmit, State.submitAt_submit]
      by_cases heq : c' = c
      · rw [if_pos heq, heq, hc]
        rfl
      · rw [if_neg heq]
    · rw [hcalled, hdequeued, hworker]
      exact hs.called w c'
  | dequeued w c hw hworker hsubmit htasks hlog =>
    obtain ⟨haccepted, hclosed, hdequeued, hcalled⟩ :
        ThreadPool.accepted t.log = ThreadPool.accepted s.log ∧
        ThreadPool.closed t.log = ThreadPool.closed s.log ∧
        dequeued t.log = dequeued s.log ++ [(w, c)] ∧
        ThreadPool.called t.log = ThreadPool.called s.log := by
      simp [ThreadPool.accepted, ThreadPool.closed, dequeued, ThreadPool.called, hlog]
    refine ⟨?_, fun c' => ?_, fun c' => ?_, fun w' c' => ?_⟩
    · rw [haccepted, hdequeued, hs.order, htasks, List.map_append, List.append_assoc]
      rfl
    · rw [haccepted, hsubmit]
      exact hs.accepted c'
    · rw [hclosed, hsubmit]
      exact hs.closed c'
    · rw [hcalled, hdequeued, List.count_append, List.count_singleton, ← hs.called w' c', hworker,
        State.workerAt_worker]
      by_cases heq : w' = w
      · rw [if_pos heq, heq, hw]
        simp [WorkerPos.held]
      · simp [heq, Ne.symm heq]
  | called w c hw hworker hsubmit htasks hlog =>
    obtain ⟨haccepted, hclosed, hdequeued, hcalled⟩ :
        ThreadPool.accepted t.log = ThreadPool.accepted s.log ∧
        ThreadPool.closed t.log = ThreadPool.closed s.log ∧
        dequeued t.log = dequeued s.log ∧
        ThreadPool.called t.log = ThreadPool.called s.log ++ [(w, c)] := by
      simp [ThreadPool.accepted, ThreadPool.closed, dequeued, ThreadPool.called, hlog]
    refine ⟨?_, fun c' => ?_, fun c' => ?_, fun w' c' => ?_⟩
    · rw [haccepted, hdequeued, htasks]
      exact hs.order
    · rw [haccepted, hsubmit]
      exact hs.accepted c'
    · rw [hclosed, hsubmit]
      exact hs.closed c'
    · rw [hcalled, hdequeued, List.count_append, List.count_singleton, ← hs.called w' c', hworker,
        State.workerAt_worker]
      by_cases heq : w' = w
      · rw [if_pos heq, heq, hw]
        simp [WorkerPos.held]
      · simp [heq, Ne.symm heq]

theorem books_start : Books ({} : State ω κ) :=
  ⟨rfl, fun _ => rfl, fun _ => rfl, fun _ _ => rfl⟩

theorem books_of_reachable (h : Reachable pool s) : Books s :=
  h.invariant (fun s hstart => by rw [hstart]; exact books_start)
    fun _ _ hs hstep => books_step hstep.recorded hs

/-! ## The last one out -/

/-- **Once a worker has decided to return**, the flag is set, the queue is empty and nobody is about
to push. -/
def Shut (s : State ω κ) : Prop :=
  ∀ w, (s.worker w).gone = true →
    s.stopping = true ∧ s.tasks = [] ∧ ∀ c, s.submit c ≠ .admitted

theorem shut_step (hexclusive : s.Exclusive) (h : Step s t) (hs : Shut s) : Shut t := by
  intro w hgone
  have hshut : s.stopping = true ∧ s.tasks = [] ∧ ∀ c, s.submit c ≠ .admitted := by
    rcases h.gone hgone with hwas | ⟨hready, hstopping, htasks⟩
    · exact hs w hwas
    · refine ⟨hstopping, htasks, fun c hc => ?_⟩
      -- the worker has the mutex, and so would the call of `submit`
      have hworker := (hexclusive (.inl w)).mp (by simp [State.inside, hready, WorkerPos.inside])
      have hsubmit := (hexclusive (.inr c)).mp (by simp [State.inside, hc, SubmitPos.inside])
      rw [hworker] at hsubmit
      cases hsubmit
  obtain ⟨hstopping, htasks, hadmitted⟩ := hshut
  refine ⟨h.stopping hstopping, ?_, fun c hc => ?_⟩
  · rcases h.tasks with hsame | ⟨c, hc⟩ | ⟨c, hpopped⟩
    · rw [hsame, htasks]
    · exact absurd hc (hadmitted c)
    · rw [htasks] at hpopped
      cases hpopped
  · rcases h.admitted hc with hwas | hno
    · exact hadmitted c hwas
    · rw [hstopping] at hno
      cases hno

theorem shut_of_reachable (h : Reachable pool s) : Shut s := by
  refine h.invariant_of (fun s hstart => ?_) fun s t hs hshut hstep =>
    shut_step (exclusive_of_reachable hs) hstep hshut
  rw [hstart]
  intro w hgone
  cases hgone

/-- A worker that has exited takes no more steps. -/
theorem exited_step (h : Step s t) {w : ω} (hw : s.worker w = .exited) : t.worker w = .exited := by
  cases h with
  | notifyOne c w' b hc hblocked =>
    simp only [State.notify, State.submitAt_worker]
    split
    · rename_i heq
      rw [heq, hblocked] at hw
      cases hw
    · rw [hw]
      rfl
  | notifyAll =>
    simp only [State.notifyEvery, hw]
    rfl
  | lock w' hw' =>
    rw [State.workerAt_worker]
    split
    · rename_i heq
      rw [← heq, hw] at hw'
      rcases hw' with hw' | hw' <;> cases hw'
    · exact hw
  | checkFalse w' hw' | checkTrue w' hw' | block w' hw' | wakeUp w' b hw' | leave w' hw'
  | exit w' hw' | pop w' c rest hw' | unlock w' c hw' | call w' c hw' | handled w' c hw' =>
    rw [State.workerAt_worker]
    split
    · rename_i heq
      exact absurd (hw'.symm.trans (heq ▸ hw)) (by simp)
    · exact hw
  | _ => exact hw

/-- `stop` returns when all workers have exited. -/
theorem returned_step (h : Step s t) (ht : t.stop = .returned) :
    s.stop = .returned ∨ ∀ w, s.worker w = .exited := by
  cases h with
  | joined hjoining hall => exact Or.inr hall
  | store | notifyAll => cases ht
  | _ => exact Or.inl ht

theorem exited_of_returned (h : Reachable pool s) (hreturned : s.stop = .returned) (w : ω) :
    s.worker w = .exited := by
  induction h with
  | start hstart =>
    rw [hstart] at hreturned
    cases hreturned
  | step _ hstep ih =>
    rcases returned_step hstep hreturned with hwas | hall
    · exact exited_step hstep (ih hwas)
    · exact exited_step hstep (hall w)

/-! ## Every client -/

/-- Has this call of `submit` decided about its client? -/
def decided (q : SubmitPos) : Bool := q.accepted || q.refused

/-- It has not both accepted and closed it. -/
theorem refused_add_accepted (q : SubmitPos) :
    ((if q.refused then 1 else 0) + if q.accepted then 1 else 0) = if decided q then 1 else 0 := by
  cases q with
  | returned b => cases b <;> rfl
  | _ => rfl

/-- A client that has been accepted has been taken out once or is in the queue once. -/
theorem Books.count_accepted (h : Books s) (c : κ) :
    ((dequeued s.log).map Prod.snd).count c + s.tasks.count c =
      if (s.submit c).accepted then 1 else 0 := by
  rw [← h.accepted c, h.order, List.count_append]

/-- **No accepted client is lost or served twice.**  In every reachable state: a client about which
`submit` has decided is in exactly one of three places, once --- closed, in the queue, or taken out
by a worker; a worker has called the handler exactly once for each client it has taken out, unless
it is about to; clients are taken out in the order in which they were accepted; once all workers
have exited the queue is empty for ever; and once `stop` has returned, every client about which
`submit` has decided has been closed or the handler has been called for it. -/
theorem every_client_once [Nonempty ω] {s : State ω κ} (h : Reachable pool s) :
    (∀ c, (closed s.log).count c + s.tasks.count c + ((dequeued s.log).map Prod.snd).count c =
      if decided (s.submit c) then 1 else 0) ∧
    (∀ w c, (called s.log).count (w, c) + (if (s.worker w).held = some c then 1 else 0) =
      (dequeued s.log).count (w, c)) ∧
    accepted s.log = (dequeued s.log).map Prod.snd ++ s.tasks ∧
    ((∀ w, s.worker w = .exited) → ∀ t, Relation.ReflTransGen Step s t → t.tasks = []) ∧
    (s.stop = .returned → s.tasks = [] ∧
      ∀ c, decided (s.submit c) → c ∈ closed s.log ∨ ∃ w, (w, c) ∈ called s.log) := by
  have hbooks := books_of_reachable h
  have hempty : (∀ w, s.worker w = .exited) → s.tasks = [] := fun hall => by
    obtain ⟨w⟩ := ‹Nonempty ω›
    exact (shut_of_reachable h w (by rw [hall]; rfl)).2.1
  refine ⟨fun c => ?_, hbooks.called, hbooks.order, fun hall t hst => ?_, fun hreturned => ?_⟩
  · rw [← refused_add_accepted, ← hbooks.closed c, ← hbooks.count_accepted c]
    omega
  · -- the workers stay where they are
    have hlater : ∀ w, t.worker w = .exited := by
      induction hst with
      | refl => exact hall
      | tail _ hstep ih => exact fun w => exited_step hstep (ih w)
    obtain ⟨w⟩ := ‹Nonempty ω›
    exact (shut_of_reachable (h.trans hst) w (by rw [hlater]; rfl)).2.1
  · have hall := exited_of_returned h hreturned
    refine ⟨hempty hall, fun c hdecided => ?_⟩
    rcases Bool.or_eq_true_iff.mp hdecided with haccepted | hrefused
    · have hqueue := hbooks.count_accepted c
      rw [hempty hall, if_pos haccepted, List.count_nil, Nat.add_zero] at hqueue
      obtain ⟨⟨w, c'⟩, hmem, rfl⟩ :=
        List.mem_map.mp (List.count_pos_iff.mp (by rw [hqueue]; exact Nat.one_pos))
      have hcalled := hbooks.called w c'
      rw [hall w, if_neg (by simp [WorkerPos.held]), Nat.add_zero] at hcalled
      exact Or.inr ⟨w, List.count_pos_iff.mp (hcalled ▸ List.count_pos_iff.mpr hmem)⟩
    · have hclosed := hbooks.closed c
      rw [if_pos hrefused] at hclosed
      exact Or.inl (List.count_pos_iff.mp (by rw [hclosed]; exact Nat.one_pos))

/-- One client is accepted, taken out and handled by one worker. -/
theorem every_client_once_handled : ∃ s : State Unit Unit, Reachable pool s ∧
    decided (s.submit ()) ∧ (closed s.log).count () + s.tasks.count () +
      ((dequeued s.log).map Prod.snd).count () = 1 := by
  have h₀ : Reachable pool ({} : State Unit Unit) := .start rfl
  have h₁ := h₀.step (.submitLock _ () rfl rfl)
  have h₂ := h₁.step (.accept _ () rfl rfl)
  have h₃ := h₂.step (.push _ () rfl)
  have h₄ := h₃.step (.submitUnlock _ () rfl)
  have h₅ := h₄.step (.notifyNone _ () rfl fun w b h => by cases h)
  have h₆ := h₅.step (.lock _ () (Or.inl rfl) rfl)
  have h₇ := h₆.step (.checkTrue _ () rfl (Or.inl (by simp)))
  have h₈ := h₇.step (.pop _ () () [] rfl rfl)
  have h₉ := h₈.step (.unlock _ () () rfl)
  have h₁₀ := h₉.step (.call _ () () rfl)
  exact ⟨_, h₁₀, rfl, (every_client_once h₁₀).1 ()⟩

end Tasks
end MultiPlayerGame
