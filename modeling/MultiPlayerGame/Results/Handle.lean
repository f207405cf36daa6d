import MultiPlayerGame.Server.DatabaseHandle

/-!
# The handle between its check and its use

An operation checks in one section that the database can be reached and uses the handle in the next.
Between the two another operation's `open` may find the connection dead, close the handle and fail
to connect again; then the handle is null when the first operation comes to its statement.

Nothing else can go wrong.  `handle_iff`: if no `open` fails while an operation is between its two
sections (`NoneCaught`), the handle is there for every statement; and if one does, it is not.

## Why this condition

`open` leaves a handle exactly if it succeeds: it keeps one that answers to a ping, and otherwise
closes it and tries to connect (`conn_open`).  So after every step the handle is there if the last
`open` succeeded.  An operation that stands before its statement has had its own `open` succeed.
For the handle to be gone then, another `open` must have failed since, and that is the only way.
Statements do not close the handle, whatever comes of them.

The condition is on the order of the steps and on what MySQL does in them.  It is exact: a failed
`open` in the window leaves no handle (`failed_of_fails`), and the operation that was at its
statement is still there.  So from that step on a bad state has been reached.
-/

namespace MultiPlayerGame
namespace Handle

open DatabaseHandle
open Interleaving (Reachable ReachableWith Config)

variable {db : Database} {x y : State}

/-- Whoever is about to execute a statement finds a handle. -/
def Live (x : State) : Prop := ∀ id, AtStatement x id → x.shared.conn = true

/-- This step is a call of `open` that fails, by the operation `id`. -/
def Fails (x y : State) (id : ℕ) : Prop :=
  (∃ op : Operation, x.inflight id = some op.run) ∧ y.inflight id = some (.ret none)

/-- No `open` fails in this step while another operation is about to execute its statement. -/
def NoneCaught (x y : State) : Prop := ∀ id, Fails x y id → ∀ other, ¬ AtStatement x other

/-- How far an operation can be.  At its first section, at its second one, or done with a result. -/
def Stage (p : Worker (Option StatementOutcome)) : Prop :=
  (∃ op : Operation, p = op.run) ∨ (∃ op : Operation, p = op.execute) ∨ ∃ r, p = .ret r

/-- **What a step does.**  One operation goes on to its next section, and the handle is as `open`
leaves it, or as it was. -/
inductive Moved (x y : State) : Prop where
  | arrived (id : ℕ) (op : Operation) (hshared : y.shared = x.shared)
      (hinflight : y.inflight = Function.update x.inflight id (some op.run))
  | opened (id : ℕ) (op : Operation) (hrun : x.inflight id = some op.run)
      (hconn : y.shared.conn = true)
      (hinflight : y.inflight = Function.update x.inflight id (some op.execute))
  | failed (id : ℕ) (op : Operation) (hrun : x.inflight id = some op.run)
      (hconn : y.shared.conn = false)
      (hinflight : y.inflight = Function.update x.inflight id (some (.ret none)))
  | executed (id : ℕ) (op : Operation) (hrun : x.inflight id = some op.execute)
      (hconn : y.shared.conn = x.shared.conn) (outcome : StatementOutcome)
      (hinflight : y.inflight = Function.update x.inflight id (some (.ret (some outcome))))
  | answered (id : ℕ) (r : Option StatementOutcome) (hrun : x.inflight id = some (.ret r))
      (hshared : y.shared = x.shared)
      (hinflight : y.inflight = Function.update x.inflight id none)

/-- `open` leaves a handle exactly when it succeeds. -/
theorem conn_open (sql : Sql) (db : Database) : (db.open sql).2.conn = (db.open sql).1 := by
  unfold Database.open
  split
  · rename_i h
    rw [Bool.and_eq_true, Bool.and_eq_true] at h
    exact h.1.2
  · split <;> rfl

theorem conn_apply (op : Operation) (db : Database) : (op.apply db).conn = db.conn := by
  cases op with
  | upsertPlayer playerId username score kills =>
    rw [Operation.apply, Database.apply]
    cases db.players.lookup playerId <;> rfl
  | _ => rfl

theorem moved_of_step (hstage : ∀ id p, x.inflight id = some p → Stage p)
    (h : Interleaving.Step Operation.run Section.exec x y) : Moved x y := by
  cases h with
  | invoke id op fresh => exact .arrived id op rfl rfl
  | respond id r done => exact .answered id r done rfl rfl
  | call id c k sql running =>
    rcases hstage id _ running with ⟨op, hop⟩ | ⟨op, hop⟩ | ⟨r, hop⟩
    · rw [hop] at running
      have hrun : Program.call c k =
          .call .open fun ok => if !ok then .ret none else op.execute := hop
      cases hrun
      have hconn := conn_open sql x.shared
      cases hok : (x.shared.open sql).1 with
      | false =>
        exact .failed id op running (hconn.trans hok) (by simp [Section.exec, hok])
      | true =>
        exact .opened id op running (hconn.trans hok) (by simp [Section.exec, hok])
    · rw [hop] at running
      have hrun : Program.call c k = .call (.statement op) fun outcome => .ret (some outcome) := hop
      cases hrun
      refine .executed id op running ?_ _ rfl
      simp only [Section.exec]
      split
      · exact conn_apply op x.shared
      · rfl
    · cases hop

theorem stage_step (hstage : ∀ id p, x.inflight id = some p → Stage p) (h : Moved x y) :
    ∀ id p, y.inflight id = some p → Stage p := by
  have hother : ∀ {i : ℕ} {v : Option (Worker (Option StatementOutcome))},
      y.inflight = Function.update x.inflight i v → (∀ p, v = some p → Stage p) →
      ∀ id p, y.inflight id = some p → Stage p := by
    intro i v hinflight hv id p hp
    rw [hinflight] at hp
    rcases Interleaving.update_some_cases hp with ⟨-, hp⟩ | ⟨-, hp⟩
    · exact hv p hp
    · exact hstage id p hp
  cases h with
  | arrived id op _ hinflight =>
    exact hother hinflight fun p hp => by cases hp; exact Or.inl ⟨op, rfl⟩
  | opened id op _ _ hinflight =>
    exact hother hinflight fun p hp => by cases hp; exact Or.inr (Or.inl ⟨op, rfl⟩)
  | failed id op _ _ hinflight =>
    exact hother hinflight fun p hp => by cases hp; exact Or.inr (Or.inr ⟨none, rfl⟩)
  | executed id op _ _ outcome hinflight =>
    exact hother hinflight fun p hp => by cases hp; exact Or.inr (Or.inr ⟨_, rfl⟩)
  | answered id r _ _ hinflight => exact hother hinflight fun p hp => by cases hp

theorem stage_of_reachable (h : Reachable Operation.run Section.exec db x) :
    ∀ id p, x.inflight id = some p → Stage p := by
  induction h with
  | refl =>
    intro id p hp
    cases hp
  | tail _ hstep ih => exact stage_step ih (moved_of_step ih hstep)

/-- Who is at a statement after a step was so before, unless it has just opened the database. -/
theorem atStatement_of_update {i id : ℕ} {v : Option (Worker (Option StatementOutcome))}
    (hinflight : y.inflight = Function.update x.inflight i v)
    (hv : ∀ op : Operation, v ≠ some op.execute) (h : AtStatement y id) : AtStatement x id := by
  obtain ⟨op, hop⟩ := h
  rw [hinflight] at hop
  rcases Interleaving.update_some_cases hop with ⟨-, hop⟩ | ⟨-, hop⟩
  · exact absurd hop (hv op)
  · exact ⟨op, hop⟩

theorem run_ne_execute (op op' : Operation) : op.run ≠ op'.execute := fun h => by
  have hrun : Program.call Section.open _ = Program.call (Section.statement op') _ := h
  cases hrun

theorem ret_ne_execute (r : Option StatementOutcome) (op : Operation) :
    (.ret r : Worker (Option StatementOutcome)) ≠ op.execute := fun h => by
  have hret : (.ret r : Worker (Option StatementOutcome)) = .call (.statement op) _ := h
  cases hret

/-- **One step**, if no `open` fails while another operation is between its sections.  An `open`
that succeeds leaves a handle, and a statement leaves the handle alone. -/
theorem live_step (hlive : Live x) (h : Moved x y) (hnone : NoneCaught x y) : Live y := by
  intro id hid
  cases h with
  | arrived i op hshared hinflight =>
    have hwas := atStatement_of_update hinflight
      (fun op' heq => run_ne_execute op op' (Option.some.inj heq)) hid
    rw [hshared]
    exact hlive id hwas
  | opened i op hrun hconn hinflight => exact hconn
  | failed i op hrun hconn hinflight =>
    have hwas := atStatement_of_update hinflight
      (fun op' heq => ret_ne_execute _ op' (Option.some.inj heq)) hid
    have hfails : Fails x y i := ⟨⟨op, hrun⟩, by rw [hinflight, Function.update_self]⟩
    exact absurd hwas (hnone i hfails id)
  | executed i op hrun hconn outcome hinflight =>
    have hwas := atStatement_of_update hinflight
      (fun op' heq => ret_ne_execute _ op' (Option.some.inj heq)) hid
    rw [hconn]
    exact hlive id hwas
  | answered i r hrun hshared hinflight =>
    have hwas := atStatement_of_update hinflight (fun op' heq => by cases heq) hid
    rw [hshared]
    exact hlive id hwas

theorem run_ne_ret (op : Operation) (r : Option StatementOutcome) : op.run ≠ .ret r := fun h => by
  have hrun : Program.call Section.open _ = .ret r := h
  cases hrun

/-- The operation that fails is the one that moves. -/
theorem moved_of_fails {i id : ℕ} {v : Option (Worker (Option StatementOutcome))}
    (hinflight : y.inflight = Function.update x.inflight i v) (hfails : Fails x y id) :
    id = i ∧ v = some (.ret none) := by
  obtain ⟨⟨op, hrun⟩, hret⟩ := hfails
  rw [hinflight] at hret
  rcases Interleaving.update_some_cases hret with h | ⟨-, hret⟩
  · exact h
  · rw [hrun] at hret
    exact absurd (Option.some.inj hret) (run_ne_ret op none)

/-- An `open` that fails leaves no handle, and whoever was at a statement still is. -/
theorem failed_of_fails (h : Moved x y) {id : ℕ} (hfails : Fails x y id) :
    y.shared.conn = false ∧ ∀ other, AtStatement x other → AtStatement y other := by
  cases h with
  | arrived i op hshared hinflight =>
    have hret := (moved_of_fails hinflight hfails).2
    exact absurd (Option.some.inj hret) (run_ne_ret op none)
  | opened i op hrun hconn hinflight =>
    have hret := (moved_of_fails hinflight hfails).2
    exact absurd (Option.some.inj hret).symm (ret_ne_execute none op)
  | failed i op hrun hconn hinflight =>
    refine ⟨hconn, fun other hother => ?_⟩
    obtain ⟨op', hop'⟩ := hother
    have hne : other ≠ i := fun heq => by
      rw [heq, hrun] at hop'
      exact run_ne_execute op op' (Option.some.inj hop')
    exact ⟨op', by rw [hinflight, Function.update_of_ne hne, hop']⟩
  | executed i op hrun hconn outcome hinflight =>
    have hret := (moved_of_fails hinflight hfails).2
    cases hret
  | answered i r hrun hshared hinflight =>
    have hret := (moved_of_fails hinflight hfails).2
    cases hret

theorem not_live_of_caught (h : Moved x y) {id other : ℕ} (hfails : Fails x y id)
    (hother : AtStatement x other) : ¬ Live y := by
  obtain ⟨hconn, hstill⟩ := failed_of_fails h hfails
  intro hlive
  rw [hlive other (hstill other hother)] at hconn
  cases hconn

/-- A step that ends with a handle is allowed: no `open` has failed in it. -/
theorem reached_of_conn (hx : ReachableWith NoneCaught Operation.run Section.exec db x)
    (hstep : Interleaving.Step Operation.run Section.exec x y) (hconn : y.shared.conn = true) :
    ReachableWith NoneCaught Operation.run Section.exec db y := by
  refine hx.tail ⟨hstep, fun id hfails => ?_⟩
  have hmoved := moved_of_step (stage_of_reachable hx.reachable) hstep
  rw [(failed_of_fails hmoved hfails).1] at hconn
  cases hconn

/-- **The handle is there for every statement unless an `open` fails while an operation is between
its two sections**, and then it is not. -/
theorem handle_iff (db : Database) :
    (∀ x : State, ReachableWith NoneCaught Operation.run Section.exec db x → Live x) ∧
      ∀ x y : State, Reachable Operation.run Section.exec db x →
        Interleaving.Step Operation.run Section.exec x y → ¬ NoneCaught x y → ¬ Live y := by
  constructor
  · intro x hx
    induction hx with
    | refl =>
      rintro id ⟨op, hop⟩
      cases hop
    | tail hbefore hstep ih =>
      have hreachable : Reachable Operation.run Section.exec db _ :=
        ReachableWith.reachable hbefore
      exact live_step ih (moved_of_step (stage_of_reachable hreachable) hstep.1) hstep.2
  · intro x y hx hstep hcaught
    obtain ⟨id, hfails, other, hother⟩ : ∃ id, Fails x y id ∧ ∃ other, AtStatement x other := by
      simpa [NoneCaught] using hcaught
    exact not_live_of_caught (moved_of_step (stage_of_reachable hx) hstep) hfails hother

/-- MySQL is there. -/
def up : Sql := {}

/-- MySQL has gone away. -/
def down : Sql := { ping := false, connect := false }

/-- One operation waits to execute its statement, and another one opens the database meanwhile.
MySQL is there, so both find a handle. -/
theorem handle_iff_overlapped : ∃ x : State,
    ReachableWith NoneCaught Operation.run Section.exec {} x ∧
      AtStatement x 0 ∧ AtStatement x 1 ∧ Live x := by
  have hnobody : ∀ {y z : State} {id : ℕ} {op : Operation},
      z.inflight = Function.update y.inflight id (some op.run) →
      (∀ other, ¬ AtStatement y other) → ∀ other, ¬ AtStatement z other :=
    fun hinflight hy other h => hy other (atStatement_of_update hinflight
      (fun op' heq => run_ne_execute _ op' (Option.some.inj heq)) h)
  have hempty : ∀ other, ¬ AtStatement (Config.start {}) other := by
    rintro other ⟨op, hop⟩
    cases hop
  have h₀ : ReachableWith NoneCaught Operation.run Section.exec {} (Config.start {}) := .refl
  have h₁ := h₀.tail ⟨.invoke _ 0 (.getPlayer 1) (by simp [Config.start]), fun _ _ => hempty⟩
  have h₂ := h₁.tail ⟨.invoke _ 1 (.getPlayer 2) (by simp [Config.start]),
    fun _ _ => hnobody rfl hempty⟩
  have h₃ := h₂.tail ⟨.call _ 0 .open _ up rfl, fun _ _ => hnobody rfl (hnobody rfl hempty)⟩
  have h₄ := reached_of_conn h₃ (.call _ 1 .open _ up rfl) rfl
  exact ⟨_, h₄, ⟨.getPlayer 1, rfl⟩, ⟨.getPlayer 2, rfl⟩, (handle_iff {}).1 _ h₄⟩

/-- One operation opens the database; MySQL goes away; another operation fails to open it.  The
first one comes to its statement without a handle. -/
theorem exists_dead : ∃ x : State, Reachable Operation.run Section.exec {} x ∧
    AtStatement x 0 ∧ x.shared.conn = false := by
  have h₀ : Reachable Operation.run Section.exec {} (Config.start {}) := .refl
  have h₁ := h₀.tail (.invoke _ 0 (.getPlayer 1) (by simp [Config.start]))
  have h₂ := h₁.tail (.invoke _ 1 (.getPlayer 2) (by simp [Config.start]))
  have h₃ := h₂.tail (.call _ 0 .open _ up rfl)
  have h₄ := h₃.tail (.call _ 1 .open _ down rfl)
  exact ⟨_, h₄, ⟨.getPlayer 1, rfl⟩, rfl⟩

end Handle
end MultiPlayerGame
