import MultiPlayerGame.Library.Program
import Mathlib.Logic.Function.Basic
import Mathlib.Logic.Relation
import Mathlib.Data.List.Pairwise
import Mathlib.Data.List.Nodup

/-!
# Programs interleaved on a shared state, and linearizability

Any number of requests are served at once.  Each runs a program of its own; between two calls of
one request any calls of the others may happen, and nothing else touches the shared state.  Every
call is one indivisible step.  What a call does may depend on an input `e` from outside (a clock,
the network, another process), which the step relation leaves open.

A configuration records the shared state, the rest of each running program and the history of
invocations and responses.  Two rules are proved for all reachable configurations.

* `Reachable.performed`: the shared state has been through some sequence of calls, so that what
  each call preserves is an invariant of it.
* `Reachable.linearization`: linearizability.  If each program of a class `K` shows at most one
  call (`Atomic`) and the programs outside `K` change nothing that the calls shown can see, then the
  answers to the requests in `K` are those of running them one at a time, in an order that never
  contradicts real time.

The proof of the second carries the order along the run: a request enters it when its one visible
call is made, or at its invocation if it makes none.  Both lie between its invocation and its
response, so a request that had finished before another started entered first.

## Configurations with conditions

Some results are about the runs whose steps all meet a condition.  `ReachableWith` puts the
condition on the configurations before and after a step, `ReachableWhere` on the call that is made
and the configuration it is made in.  Both imply `Reachable`, so what holds of all runs holds of
these too, and a condition that holds of every step gives `Reachable` back.

## Logs

`Logged` is `Reachable` with the list of all calls made on the way, who made each and what it was
answered.  Whether an invariant can be stated over the shared state alone is a matter of what the
program keeps; a counter that was read and stored later, for example, is known only from who has
read it.  The log has all of this, and `reachable_iff_logged` says that it can be had for every
configuration.
-/

namespace MultiPlayerGame
namespace Interleaving

open Program

variable {C : Type} {Ans : C → Type} {Q ρ σ τ ε : Type}

/-- What a client observes: it sends a request, it receives the response. -/
inductive Event (Q ρ : Type) where
  | invoke (id : ℕ) (q : Q)
  | respond (id : ℕ) (r : ρ)
  deriving DecidableEq

/-- The shared state, the requests being served and the history so far, oldest event first. -/
structure Config (C : Type) (Ans : C → Type) (Q ρ σ : Type) where
  shared : σ
  inflight : ℕ → Option (Program C Ans ρ)
  history : List (Event Q ρ)

/-- Nothing has been requested yet. -/
def Config.start (s : σ) : Config C Ans Q ρ σ := ⟨s, fun _ => none, []⟩

/-- No request is being served. -/
def Config.Quiet (x : Config C Ans Q ρ σ) : Prop := ∀ id, x.inflight id = none

/-- One step: a new request arrives, a request makes its next call, or a finished request is
answered. -/
inductive Step (prog : Q → Program C Ans ρ) (exec : (c : C) → ε → σ → Ans c × σ) :
    Config C Ans Q ρ σ → Config C Ans Q ρ σ → Prop where
  | invoke (x : Config C Ans Q ρ σ) (id : ℕ) (q : Q) (fresh : ∀ q', .invoke id q' ∉ x.history) :
      Step prog exec x
        ⟨x.shared, Function.update x.inflight id (some (prog q)), x.history ++ [.invoke id q]⟩
  | call (x : Config C Ans Q ρ σ) (id : ℕ) (c : C) (k : Ans c → Program C Ans ρ) (e : ε)
      (running : x.inflight id = some (.call c k)) :
      Step prog exec x
        ⟨(exec c e x.shared).2, Function.update x.inflight id (some (k (exec c e x.shared).1)),
          x.history⟩
  | respond (x : Config C Ans Q ρ σ) (id : ℕ) (r : ρ) (done : x.inflight id = some (.ret r)) :
      Step prog exec x
        ⟨x.shared, Function.update x.inflight id none, x.history ++ [.respond id r]⟩

/-- What some interleaving of some requests can reach.  The requests may be any, as many as there
are and sent at any time. -/
def Reachable (prog : Q → Program C Ans ρ) (exec : (c : C) → ε → σ → Ans c × σ) (s : σ)
    (x : Config C Ans Q ρ σ) : Prop :=
  Relation.ReflTransGen (Step prog exec) (.start s) x

/-- What can be reached by steps that satisfy a condition on the configurations before and after. -/
def ReachableWith (P : Config C Ans Q ρ σ → Config C Ans Q ρ σ → Prop)
    (prog : Q → Program C Ans ρ) (exec : (c : C) → ε → σ → Ans c × σ) (s : σ)
    (x : Config C Ans Q ρ σ) : Prop :=
  Relation.ReflTransGen (fun x y => Step prog exec x y ∧ P x y) (.start s) x

theorem ReachableWith.reachable {P : Config C Ans Q ρ σ → Config C Ans Q ρ σ → Prop}
    {prog : Q → Program C Ans ρ} {exec : (c : C) → ε → σ → Ans c × σ} {s : σ}
    {x : Config C Ans Q ρ σ} (hx : ReachableWith P prog exec s x) : Reachable prog exec s x := by
  induction hx with
  | refl => exact .refl
  | tail _ hstep ih => exact ih.tail hstep.1

/-- Steps in which a call is made only if it meets a condition on the configuration it is made
in. -/
inductive StepWhere (P : Config C Ans Q ρ σ → ℕ → C → Prop) (prog : Q → Program C Ans ρ)
    (exec : (c : C) → ε → σ → Ans c × σ) : Config C Ans Q ρ σ → Config C Ans Q ρ σ → Prop where
  | invoke (x : Config C Ans Q ρ σ) (id : ℕ) (q : Q) (fresh : ∀ q', .invoke id q' ∉ x.history) :
      StepWhere P prog exec x
        ⟨x.shared, Function.update x.inflight id (some (prog q)), x.history ++ [.invoke id q]⟩
  | call (x : Config C Ans Q ρ σ) (id : ℕ) (c : C) (k : Ans c → Program C Ans ρ) (e : ε)
      (running : x.inflight id = some (.call c k)) (holds : P x id c) :
      StepWhere P prog exec x
        ⟨(exec c e x.shared).2, Function.update x.inflight id (some (k (exec c e x.shared).1)),
          x.history⟩
  | respond (x : Config C Ans Q ρ σ) (id : ℕ) (r : ρ) (done : x.inflight id = some (.ret r)) :
      StepWhere P prog exec x
        ⟨x.shared, Function.update x.inflight id none, x.history ++ [.respond id r]⟩

/-- What can be reached if every call meets a condition. -/
def ReachableWhere (P : Config C Ans Q ρ σ → ℕ → C → Prop) (prog : Q → Program C Ans ρ)
    (exec : (c : C) → ε → σ → Ans c × σ) (s : σ) (x : Config C Ans Q ρ σ) : Prop :=
  Relation.ReflTransGen (StepWhere P prog exec) (.start s) x

section Where

variable {P : Config C Ans Q ρ σ → ℕ → C → Prop} {prog : Q → Program C Ans ρ}
  {exec : (c : C) → ε → σ → Ans c × σ} {s : σ} {x y : Config C Ans Q ρ σ}

theorem StepWhere.step (h : StepWhere P prog exec x y) : Step prog exec x y := by
  cases h with
  | invoke id q fresh => exact .invoke x id q fresh
  | call id c k e running _ => exact .call x id c k e running
  | respond id r done => exact .respond x id r done

theorem ReachableWhere.reachable (hx : ReachableWhere P prog exec s x) :
    Reachable prog exec s x := by
  induction hx with
  | refl => exact .refl
  | tail _ hstep ih => exact ih.tail hstep.step

end Where

/-! ## Invariants of the shared state -/

section Invariant

variable {prog : Q → Program C Ans ρ} {exec : (c : C) → ε → σ → Ans c × σ} {s : σ}
  {x : Config C Ans Q ρ σ}

/-- The requests being served after one of them has moved. -/
theorem update_some_cases {α : Type} {f : ℕ → Option α} {i id : ℕ} {v : Option α} {p : α}
    (hp : Function.update f i v id = some p) :
    (id = i ∧ v = some p) ∨ (id ≠ i ∧ f id = some p) := by
  by_cases hi : id = i
  · subst hi
    rw [Function.update_self] at hp
    exact Or.inl ⟨rfl, hp⟩
  · rw [Function.update_of_ne hi] at hp
    exact Or.inr ⟨hi, hp⟩

theorem update_self_ne_none {α : Type} {f : ℕ → Option α} {i : ℕ} {p : α} :
    Function.update f i (some p) i ≠ none := by
  rw [Function.update_self]
  exact Option.some_ne_none _

/-- What is being served is what is left of a request that has been sent; so it returns what the
request could return. -/
theorem Reachable.returns {R : Q → ρ → Prop} (hprog : ∀ q, (prog q).Returns (R q))
    (hx : Reachable prog exec s x) {id : ℕ} {p : Program C Ans ρ} (hp : x.inflight id = some p) :
    ∃ q, .invoke id q ∈ x.history ∧ p.Returns (R q) := by
  induction hx generalizing id p with
  | refl => cases hp
  | tail _ hstep ih =>
    cases hstep with
    | invoke i q _ =>
      rcases update_some_cases hp with ⟨rfl, hv⟩ | ⟨-, hp⟩
      · cases hv
        exact ⟨q, List.mem_append_right _ (List.mem_singleton_self _), hprog q⟩
      · obtain ⟨q', hq', hreturns⟩ := ih hp
        exact ⟨q', List.mem_append_left _ hq', hreturns⟩
    | call i c k e hrun =>
      rcases update_some_cases hp with ⟨rfl, hv⟩ | ⟨-, hp⟩
      · cases hv
        obtain ⟨q, hq, hreturns⟩ := ih hrun
        exact ⟨q, hq, hreturns _⟩
      · exact ih hp
    | respond i r _ =>
      rcases update_some_cases hp with ⟨-, hv⟩ | ⟨-, hp⟩
      · cases hv
      · obtain ⟨q', hq', hreturns⟩ := ih hp
        exact ⟨q', List.mem_append_left _ hq', hreturns⟩

/-- Whatever is being served has been sent. -/
theorem Reachable.invoked (hx : Reachable prog exec s x) {id : ℕ} {p : Program C Ans ρ}
    (hp : x.inflight id = some p) : ∃ q, .invoke id q ∈ x.history := by
  obtain ⟨q, hq, -⟩ := hx.returns (R := fun _ _ => True)
    (fun q => Program.returns_of_forall (fun _ => trivial) (prog q)) hp
  exact ⟨q, hq⟩

/-- **Whatever has been answered is an answer to what has been sent.**  The answer is one that the
program of the request may return. -/
theorem Reachable.returned {R : Q → ρ → Prop} (hprog : ∀ q, (prog q).Returns (R q))
    (hx : Reachable prog exec s x) {id : ℕ} {r : ρ} (hr : .respond id r ∈ x.history) :
    ∃ q, .invoke id q ∈ x.history ∧ R q r := by
  induction hx with
  | refl => cases hr
  | tail hbefore hstep ih =>
    cases hstep with
    | invoke i q _ =>
      obtain ⟨q', hq', hR⟩ := ih (by simpa using hr)
      exact ⟨q', List.mem_append_left _ hq', hR⟩
    | call i c k e _ => exact ih hr
    | respond i r' done =>
      rcases List.mem_append.mp hr with hr | hr
      · obtain ⟨q', hq', hR⟩ := ih hr
        exact ⟨q', List.mem_append_left _ hq', hR⟩
      · cases List.mem_singleton.mp hr
        obtain ⟨q', hq', hreturns⟩ := Reachable.returns hprog hbefore done
        exact ⟨q', List.mem_append_left _ hq', hreturns⟩

/-- Whatever has been answered has been sent. -/
theorem Reachable.invoked_of_respond (hx : Reachable prog exec s x) {id : ℕ} {r : ρ}
    (hr : .respond id r ∈ x.history) : ∃ q, .invoke id q ∈ x.history := by
  obtain ⟨q, hq, -⟩ := hx.returned (R := fun _ _ => True)
    (fun q => Program.returns_of_forall (fun _ => trivial) (prog q)) hr
  exact ⟨q, hq⟩

/-- Every request is sent once. -/
theorem Reachable.invoked_once (hx : Reachable prog exec s x) {id : ℕ} {q q' : Q}
    (h : .invoke id q ∈ x.history) (h' : .invoke id q' ∈ x.history) : q = q' := by
  induction hx with
  | refl => cases h
  | tail _ hstep ih =>
    cases hstep with
    | invoke i q'' fresh =>
      rcases List.mem_append.mp h with h₁ | h₁ <;> rcases List.mem_append.mp h' with h₂ | h₂
      · exact ih h₁ h₂
      · cases List.mem_singleton.mp h₂
        exact absurd h₁ (fresh q)
      · cases List.mem_singleton.mp h₁
        exact absurd h₂ (fresh q')
      · cases List.mem_singleton.mp h₁
        cases List.mem_singleton.mp h₂
        rfl
    | call => exact ih h h'
    | respond => exact ih (by simpa using h) (by simpa using h')

/-- What has been answered is not being served any more. -/
theorem Reachable.done_of_answered (hx : Reachable prog exec s x) {id : ℕ} {r : ρ}
    (h : .respond id r ∈ x.history) : x.inflight id = none := by
  induction hx generalizing r with
  | refl => cases h
  | tail hbefore hstep ih =>
    cases hstep with
    | invoke i q fresh =>
      rcases List.mem_append.mp h with h₁ | h₁
      · have hi : id ≠ i := by
          rintro rfl
          obtain ⟨q', hq'⟩ := Reachable.invoked_of_respond hbefore h₁
          exact fresh q' hq'
        exact (Function.update_of_ne hi _ _).trans (ih h₁)
      · cases List.mem_singleton.mp h₁
    | call i c k e running =>
      have hi : id ≠ i := by
        rintro rfl
        cases running.symm.trans (ih h)
      exact (Function.update_of_ne hi _ _).trans (ih h)
    | respond i r' done =>
      by_cases hi : id = i
      · subst hi
        exact Function.update_self ..
      · rcases List.mem_append.mp h with h₁ | h₁
        · exact (Function.update_of_ne hi _ _).trans (ih h₁)
        · cases List.mem_singleton.mp h₁
          exact absurd rfl hi

/-- Every request is answered once. -/
theorem Reachable.answered_once (hx : Reachable prog exec s x) {id : ℕ} {r r' : ρ}
    (h : .respond id r ∈ x.history) (h' : .respond id r' ∈ x.history) : r = r' := by
  induction hx with
  | refl => cases h
  | tail hbefore hstep ih =>
    cases hstep with
    | invoke => exact ih (by simpa using h) (by simpa using h')
    | call => exact ih h h'
    | respond i r'' done =>
      rcases List.mem_append.mp h with h₁ | h₁ <;> rcases List.mem_append.mp h' with h₂ | h₂
      · exact ih h₁ h₂
      · cases List.mem_singleton.mp h₂
        cases done.symm.trans (Reachable.done_of_answered hbefore h₁)
      · cases List.mem_singleton.mp h₁
        cases done.symm.trans (Reachable.done_of_answered hbefore h₂)
      · cases List.mem_singleton.mp h₁
        cases List.mem_singleton.mp h₂
        rfl

/-- What has been sent and is not being served has been answered. -/
theorem Reachable.answered_of_done (hx : Reachable prog exec s x) {id : ℕ} {q : Q}
    (h : .invoke id q ∈ x.history) (hdone : x.inflight id = none) :
    ∃ r, .respond id r ∈ x.history := by
  induction hx with
  | refl => cases h
  | tail _ hstep ih =>
    cases hstep with
    | invoke i q' fresh =>
      rcases List.mem_append.mp h with h₁ | h₁
      · have hi : id ≠ i := by
          rintro rfl
          exact fresh q h₁
        obtain ⟨r, hr⟩ := ih h₁ ((Function.update_of_ne hi _ _).symm.trans hdone)
        exact ⟨r, List.mem_append_left _ hr⟩
      · cases List.mem_singleton.mp h₁
        exact absurd hdone update_self_ne_none
    | call i c k e running =>
      have hi : id ≠ i := by
        rintro rfl
        exact update_self_ne_none hdone
      exact ih h ((Function.update_of_ne hi _ _).symm.trans hdone)
    | respond i r done =>
      by_cases hi : id = i
      · subst hi
        exact ⟨r, List.mem_append_right _ (List.mem_singleton_self _)⟩
      · obtain ⟨r', hr'⟩ := ih (by simpa using h) ((Function.update_of_ne hi _ _).symm.trans hdone)
        exact ⟨r', List.mem_append_left _ hr'⟩

end Invariant

/-- Whatever mixes, the shared state has been through some sequence of calls. -/
theorem Reachable.performed {prog : Q → Program C Ans ρ} {exec : (c : C) → ε → σ → Ans c × σ}
    {s : σ} {x : Config C Ans Q ρ σ} (hx : Reachable prog exec s x) :
    ∃ log, Performed exec s log x.shared := by
  induction hx with
  | refl => exact ⟨[], Performed.nil⟩
  | tail _ hstep ih =>
    obtain ⟨log, hlog⟩ := ih
    cases hstep with
    | invoke => exact ⟨log, hlog⟩
    | call id c k e => exact ⟨_, hlog.snoc c e⟩
    | respond => exact ⟨log, hlog⟩

/-- `Logged prog exec s x log`: the configuration can be reached, and `log` lists the calls made on
the way, oldest first, with who made each and what it was answered. -/
inductive Logged (prog : Q → Program C Ans ρ) (exec : (c : C) → ε → σ → Ans c × σ) (s : σ) :
    Config C Ans Q ρ σ → List (ℕ × Σ c, Ans c) → Prop where
  | start : Logged prog exec s (.start s) []
  | invoke {x : Config C Ans Q ρ σ} {log : List (ℕ × Σ c, Ans c)}
      (before : Logged prog exec s x log) (id : ℕ) (q : Q)
      (fresh : ∀ q', .invoke id q' ∉ x.history) :
      Logged prog exec s
        ⟨x.shared, Function.update x.inflight id (some (prog q)), x.history ++ [.invoke id q]⟩ log
  | call {x : Config C Ans Q ρ σ} {log : List (ℕ × Σ c, Ans c)}
      (before : Logged prog exec s x log) (id : ℕ) (c : C) (k : Ans c → Program C Ans ρ) (e : ε)
      (running : x.inflight id = some (.call c k)) :
      Logged prog exec s
        ⟨(exec c e x.shared).2, Function.update x.inflight id (some (k (exec c e x.shared).1)),
          x.history⟩ (log ++ [(id, ⟨c, (exec c e x.shared).1⟩)])
  | respond {x : Config C Ans Q ρ σ} {log : List (ℕ × Σ c, Ans c)}
      (before : Logged prog exec s x log) (id : ℕ) (r : ρ) (done : x.inflight id = some (.ret r)) :
      Logged prog exec s
        ⟨x.shared, Function.update x.inflight id none, x.history ++ [.respond id r]⟩ log

/-- A configuration can be reached exactly if there is a log of how. -/
theorem reachable_iff_logged {prog : Q → Program C Ans ρ} {exec : (c : C) → ε → σ → Ans c × σ}
    {s : σ} {x : Config C Ans Q ρ σ} :
    Reachable prog exec s x ↔ ∃ log, Logged prog exec s x log := by
  constructor
  · intro hx
    induction hx with
    | refl => exact ⟨[], .start⟩
    | tail _ hstep ih =>
      obtain ⟨log, hlog⟩ := ih
      cases hstep with
      | invoke id q fresh => exact ⟨log, hlog.invoke id q fresh⟩
      | call id c k e running => exact ⟨_, hlog.call id c k e running⟩
      | respond id r done => exact ⟨log, hlog.respond id r done⟩
  · rintro ⟨log, hlog⟩
    induction hlog with
    | start => exact .refl
    | invoke _ id q fresh ih => exact ih.tail (.invoke _ id q fresh)
    | call _ id c k e running ih => exact ih.tail (.call _ id c k e running)
    | respond _ id r done ih => exact ih.tail (.respond _ id r done)

/-- A request may make all its remaining calls in a row. -/
theorem Reachable.runs {prog : Q → Program C Ans ρ} {exec : (c : C) → ε → σ → Ans c × σ} {s : σ}
    {x : Config C Ans Q ρ σ} (hx : Reachable prog exec s x) (id : ℕ) {p : Program C Ans ρ} {r : ρ}
    {t : σ} (hp : x.inflight id = some p) (h : Runs exec p x.shared r t) :
    Reachable prog exec s ⟨t, Function.update x.inflight id (some (.ret r)), x.history⟩ := by
  obtain ⟨shared, inflight, history⟩ := x
  change Runs exec p shared r t at h
  change inflight id = some p at hp
  induction h generalizing inflight with
  | ret r s =>
    rw [← hp, Function.update_eq_self]
    exact hx
  | call c k e s r t _ ih =>
    have hnext := hx.tail (Step.call _ id c k e hp)
    have hrest := ih _ hnext (Function.update_self ..)
    rwa [Function.update_idem] at hrest

/-- Serving requests one at a time is an interleaving of them. -/
theorem Reachable.of_served {prog : Q → Program C Ans ρ} {exec : (c : C) → ε → σ → Ans c × σ}
    {s t : σ} {history : List (Q × ρ)} (h : Program.Served prog exec s history t) :
    ∃ x, Reachable prog exec s x ∧ x.shared = t ∧
      ∀ id q, .invoke id q ∈ x.history → id < history.length := by
  induction h with
  | nil => exact ⟨.start s, .refl, rfl, fun id q hq => (List.not_mem_nil hq).elim⟩
  | @snoc past t u q r _ last ih =>
    obtain ⟨x, hx, rfl, hsent⟩ := ih
    have hfresh : ∀ q', .invoke past.length q' ∉ x.history := fun q' hq' =>
      Nat.lt_irrefl _ (hsent _ q' hq')
    have hinvoke := hx.tail (Step.invoke x past.length q hfresh)
    refine ⟨_, Reachable.runs hinvoke past.length (Function.update_self ..) last, rfl, ?_⟩
    intro id q' hq'
    rw [List.length_append]
    rcases List.mem_append.mp hq' with hq' | hq'
    · exact Nat.lt_add_right _ (hsent id q' hq')
    · cases List.mem_singleton.mp hq'
      exact Nat.lt_succ_self _

/-- The same if all these calls meet the condition. -/
theorem ReachableWhere.runs {P : Config C Ans Q ρ σ → ℕ → C → Prop} {P' : C → Prop}
    {prog : Q → Program C Ans ρ} {exec : (c : C) → ε → σ → Ans c × σ} {s : σ}
    {x : Config C Ans Q ρ σ} (hx : ReachableWhere P prog exec s x) (id : ℕ)
    (hP : ∀ y c, P' c → P y id c) {p : Program C Ans ρ} {r : ρ} {t : σ}
    (hp : x.inflight id = some p) (hcalls : p.Calls P') (h : Runs exec p x.shared r t) :
    ReachableWhere P prog exec s ⟨t, Function.update x.inflight id (some (.ret r)), x.history⟩ := by
  obtain ⟨shared, inflight, history⟩ := x
  change Runs exec p shared r t at h
  change inflight id = some p at hp
  induction h generalizing inflight with
  | ret r s =>
    rw [← hp, Function.update_eq_self]
    exact hx
  | call c k e s r t _ ih =>
    have hnext := hx.tail (StepWhere.call _ id c k e hp (hP _ c hcalls.1))
    have hrest := ih (hcalls.2 _) _ hnext (Function.update_self ..)
    rwa [Function.update_idem] at hrest

/-! ## Linearizability -/

/-- A program that shows no call, only its result, or one call and a result computed from its
answer. -/
def Atomic (seen : C → Prop) (p : Program C Ans ρ) : Prop :=
  (∃ r, Shows seen p (.ret r)) ∨
    ∃ (c : C) (f : Ans c → ρ), seen c ∧ Shows seen p (.call c fun x => .ret (f x))

/-- One request was answered before another was sent.  Their order is the one that a linearization
must keep. -/
def Before (history : List (Event Q ρ)) (i j : ℕ) : Prop :=
  ∃ past future, history = past ++ future ∧ (∃ r, .respond i r ∈ past) ∧
    ∃ q, .invoke j q ∈ future

/-- A request placed in the sequential order, with the answer it gets there. -/
structure Entry (Q ρ : Type) where
  id : ℕ
  request : Q
  answer : ρ

/-- `order` is a linearization of a configuration for the requests in `K`: a sequential order of
the answered ones, and of some that are still being served, which

* contains each request at most once, and each answered request of `K` with its own answer;
* never puts a request behind one that was sent after it had been answered;
* executed one request at a time from `s`, can give the answers it lists and end in a state that
  agrees with the shared one. -/
structure IsLinearization (prog : Q → Program C Ans ρ) (K : Q → Prop)
    (exec : (c : C) → ε → σ → Ans c × σ) (s : σ) (abs : σ → τ) (x : Config C Ans Q ρ σ)
    (order : List (Entry Q ρ)) : Prop where
  nodup : (order.map Entry.id).Nodup
  complete : ∀ id q r, .invoke id q ∈ x.history → .respond id r ∈ x.history → K q →
    ⟨id, q, r⟩ ∈ order
  sound : ∀ a ∈ order, K a.request ∧ .invoke a.id a.request ∈ x.history ∧
    (.respond a.id a.answer ∈ x.history ∨ x.inflight a.id ≠ none)
  realTime : order.Pairwise fun a b => ¬ Before x.history b.id a.id
  served : ∃ t, Served prog exec s (order.map fun a => (a.request, a.answer)) t ∧
    abs t = abs x.shared

section Before

variable {history : List (Event Q ρ)} {i j : ℕ}

theorem Before.respond_mem (h : Before history i j) : ∃ r, .respond i r ∈ history := by
  obtain ⟨past, future, rfl, ⟨r, hr⟩, -⟩ := h
  exact ⟨r, List.mem_append_left _ hr⟩

/-- What a new event adds: a new request was sent after everything answered so far. -/
theorem Before.of_snoc {ev : Event Q ρ} (h : Before (history ++ [ev]) i j) :
    Before history i j ∨ ∃ q, ev = .invoke j q ∧ ∃ r, .respond i r ∈ history := by
  obtain ⟨past, future, heq, ⟨r, hr⟩, q, hq⟩ := h
  rcases List.eq_nil_or_concat future with rfl | ⟨future', last, rfl⟩
  · cases hq
  · rw [List.concat_eq_append, ← List.append_assoc] at heq
    obtain ⟨hhist, hlast⟩ := List.append_inj' heq rfl
    rw [List.concat_eq_append, List.mem_append, List.mem_singleton] at hq
    rcases hq with hq | hq
    · exact Or.inl ⟨past, future', hhist, ⟨r, hr⟩, q, hq⟩
    · refine Or.inr ⟨q, ?_, r, ?_⟩
      · rw [hq]
        exact List.head_eq_of_cons_eq hlast
      · rw [hhist]
        exact List.mem_append_left _ hr

end Before

section Linearization

variable {prog : Q → Program C Ans ρ} {exec : (c : C) → ε → σ → Ans c × σ} {K : Q → Prop}
  {seen silent : C → Prop} {abs : σ → τ} {s : σ} {x : Config C Ans Q ρ σ}
  {order : List (Entry Q ρ)}

/-- How far a request being served has come: it is in the order and can only return what is listed
there, or it has yet to make its one visible call. -/
def Progress (prog : Q → Program C Ans ρ) (seen : C → Prop) (order : List (Entry Q ρ)) (id : ℕ)
    (q : Q) (p : Program C Ans ρ) : Prop :=
  (∃ r, ⟨id, q, r⟩ ∈ order ∧ Shows seen p (.ret r)) ∨
    ((∀ a ∈ order, a.id ≠ id) ∧ ∃ (c : C) (f : Ans c → ρ), seen c ∧
      Shows seen p (.call c fun y => .ret (f y)) ∧
      Shows seen (prog q) (.call c fun y => .ret (f y)))

/-- What holds of the requests being served, next to `IsLinearization`. -/
structure Tracked (prog : Q → Program C Ans ρ) (K : Q → Prop) (seen silent : C → Prop)
    (x : Config C Ans Q ρ σ) (order : List (Entry Q ρ)) : Prop where
  invoked_once : ∀ id q q', .invoke id q ∈ x.history → .invoke id q' ∈ x.history → q = q'
  responded : ∀ id r, .respond id r ∈ x.history →
    x.inflight id = none ∧ ∃ q, .invoke id q ∈ x.history
  running : ∀ id p, x.inflight id = some p → ∃ q, .invoke id q ∈ x.history ∧
    (K q → Progress prog seen order id q p) ∧ (¬ K q → p.Calls silent)

theorem Tracked.not_responded (htrack : Tracked prog K seen silent x order) {id : ℕ}
    {p : Program C Ans ρ} (hp : x.inflight id = some p) (r : ρ) : .respond id r ∉ x.history := by
  intro hr
  rw [(htrack.responded id r hr).1] at hp
  cases hp

theorem Progress.mono {order' : List (Entry Q ρ)} {id : ℕ} {q : Q} {p : Program C Ans ρ}
    (h : Progress prog seen order id q p) (hsub : ∀ a ∈ order, a ∈ order')
    (hnew : ∀ a ∈ order', a ∉ order → a.id ≠ id) : Progress prog seen order' id q p := by
  rcases h with ⟨r, hr, hp⟩ | ⟨hno, hp⟩
  · exact Or.inl ⟨r, hsub _ hr, hp⟩
  · refine Or.inr ⟨fun a ha => ?_, hp⟩
    by_cases hmem : a ∈ order
    · exact hno a hmem
    · exact hnew a ha hmem

theorem start_isLinearization :
    IsLinearization prog K exec s abs (.start s : Config C Ans Q ρ σ) [] where
  nodup := List.nodup_nil
  complete := fun _ _ _ hmem => by cases hmem
  sound := fun _ hmem => by cases hmem
  realTime := List.Pairwise.nil
  served := ⟨s, Served.nil, rfl⟩

theorem start_tracked : Tracked prog K seen silent (.start s : Config C Ans Q ρ σ) [] where
  invoked_once := fun _ _ _ hmem => by cases hmem
  responded := fun _ _ hmem => by cases hmem
  running := fun _ _ hrun => by cases hrun

/-- A request enters the order while it is being served. -/
theorem IsLinearization.snoc (hlin : IsLinearization prog K exec s abs x order)
    {a : Entry Q ρ} {t : σ} {inflight' : ℕ → Option (Program C Ans ρ)} (hK : K a.request)
    (hinv : .invoke a.id a.request ∈ x.history) (hopen : ∀ r, .respond a.id r ∉ x.history)
    (hnew : ∀ b ∈ order, b.id ≠ a.id) (hself : inflight' a.id ≠ none)
    (hother : ∀ i ≠ a.id, inflight' i = x.inflight i)
    (halone : ∀ u, abs u = abs x.shared →
      ∃ u', Runs exec (prog a.request) u a.answer u' ∧ abs u' = abs t) :
    IsLinearization prog K exec s abs ⟨t, inflight', x.history⟩ (order ++ [a]) where
  nodup := by
    rw [List.map_append, List.nodup_append]
    refine ⟨hlin.nodup, List.nodup_singleton _, fun i hi j hj => ?_⟩
    obtain ⟨b, hb, rfl⟩ := List.mem_map.mp hi
    rw [List.map_singleton, List.mem_singleton] at hj
    exact hj ▸ hnew b hb
  complete := fun id q r hq hr hKq => List.mem_append_left _ (hlin.complete id q r hq hr hKq)
  sound := by
    intro b hb
    rcases List.mem_append.mp hb with hb | hb
    · obtain ⟨hKb, hinvb, hdone⟩ := hlin.sound b hb
      exact ⟨hKb, hinvb, hdone.imp_right fun hne => (hother b.id (hnew b hb)).trans_ne hne⟩
    · rw [List.mem_singleton.mp hb]
      exact ⟨hK, hinv, Or.inr hself⟩
  realTime := by
    rw [List.pairwise_append]
    refine ⟨hlin.realTime, List.pairwise_singleton _ _, fun b _ c hc hbefore => ?_⟩
    rw [List.mem_singleton.mp hc] at hbefore
    obtain ⟨r, hr⟩ := hbefore.respond_mem
    exact hopen r hr
  served := by
    obtain ⟨u, hserved, hu⟩ := hlin.served
    obtain ⟨u', hlast, hu'⟩ := halone u hu
    rw [List.map_append]
    exact ⟨u', hserved.snoc hlast, hu'⟩

/-- A new request leaves the order a linearization. -/
theorem IsLinearization.invoke (hlin : IsLinearization prog K exec s abs x order)
    (htrack : Tracked prog K seen silent x order) {id : ℕ} {q : Q}
    (fresh : ∀ q', .invoke id q' ∉ x.history) (p : Program C Ans ρ) :
    IsLinearization prog K exec s abs
      ⟨x.shared, Function.update x.inflight id (some p), x.history ++ [.invoke id q]⟩ order where
  nodup := hlin.nodup
  complete := by
    intro i q' r hq' hr hK
    have hr' : .respond i r ∈ x.history := by simpa using hr
    rcases List.mem_append.mp hq' with hq' | hq'
    · exact hlin.complete i q' r hq' hr' hK
    · cases List.mem_singleton.mp hq'
      obtain ⟨-, q'', hq''⟩ := htrack.responded _ _ hr'
      exact absurd hq'' (fresh q'')
  sound := by
    intro a ha
    obtain ⟨hK, hinv, hdone⟩ := hlin.sound a ha
    refine ⟨hK, List.mem_append_left _ hinv, hdone.imp (List.mem_append_left _) fun hne => ?_⟩
    have hid : a.id ≠ id := fun heq => fresh a.request (heq ▸ hinv)
    change Function.update x.inflight id (some p) a.id ≠ none
    rwa [Function.update_of_ne hid]
  realTime := by
    refine hlin.realTime.imp_of_mem fun {a b} ha _ hnot hbefore => ?_
    rcases hbefore.of_snoc with hbefore | ⟨q', hev, -⟩
    · exact hnot hbefore
    · -- the new request is not in the order yet
      cases hev
      exact fresh a.request (hlin.sound a ha).2.1
  served := hlin.served

/-- An answer leaves the order a linearization, if it is the one listed there. -/
theorem IsLinearization.respond (hlin : IsLinearization prog K exec s abs x order)
    (htrack : Tracked prog K seen silent x order) {id : ℕ} {r : ρ}
    (done : x.inflight id = some (.ret r)) :
    IsLinearization prog K exec s abs
      ⟨x.shared, Function.update x.inflight id none, x.history ++ [.respond id r]⟩ order := by
  obtain ⟨q, hq, hK, -⟩ := htrack.running id _ done
  have hlisted : K q → ⟨id, q, r⟩ ∈ order := fun hKq => by
    rcases hK hKq with ⟨r', hr', hshows⟩ | ⟨-, c, f, -, hshows, -⟩
    · cases hshows.eq_of_ret
      exact hr'
    · cases hshows.eq_of_ret
  refine ⟨hlin.nodup, ?_, ?_, ?_, hlin.served⟩
  · intro i q' r' hq' hr' hKq'
    have hq'' : .invoke i q' ∈ x.history := by simpa using hq'
    rcases List.mem_append.mp hr' with hr' | hr'
    · exact hlin.complete i q' r' hq'' hr' hKq'
    · cases List.mem_singleton.mp hr'
      cases htrack.invoked_once _ _ _ hq hq''
      exact hlisted hKq'
  · intro a ha
    obtain ⟨hKa, hinv, hdone⟩ := hlin.sound a ha
    refine ⟨hKa, List.mem_append_left _ hinv, ?_⟩
    by_cases hid : a.id = id
    · left
      have hreq : q = a.request := htrack.invoked_once id _ _ hq (hid ▸ hinv)
      have hsame := List.inj_on_of_nodup_map hlin.nodup ha (hlisted (hreq ▸ hKa)) hid
      rw [hsame]
      exact List.mem_append_right _ (List.mem_singleton_self _)
    · refine hdone.imp (List.mem_append_left _) fun hne => ?_
      change Function.update x.inflight id none a.id ≠ none
      rwa [Function.update_of_ne hid]
  · refine hlin.realTime.imp fun {a b} hnot hbefore => ?_
    rcases hbefore.of_snoc with hbefore | ⟨q', hev, -⟩
    · exact hnot hbefore
    · cases hev

theorem Tracked.invoke (htrack : Tracked prog K seen silent x order) {order' : List (Entry Q ρ)}
    {id : ℕ} {q : Q} (fresh : ∀ q', .invoke id q' ∉ x.history) {p : Program C Ans ρ}
    (hsub : ∀ a ∈ order, a ∈ order') (hnew : ∀ a ∈ order', a ∉ order → a.id = id)
    (hK : K q → Progress prog seen order' id q p)
    (hnK : ¬ K q → p.Calls silent) :
    Tracked prog K seen silent
      ⟨x.shared, Function.update x.inflight id (some p), x.history ++ [.invoke id q]⟩ order' where
  invoked_once := by
    intro i q₁ q₂ h₁ h₂
    rcases List.mem_append.mp h₁ with h₁ | h₁ <;> rcases List.mem_append.mp h₂ with h₂ | h₂
    · exact htrack.invoked_once i q₁ q₂ h₁ h₂
    · cases List.mem_singleton.mp h₂
      exact absurd h₁ (fresh q₁)
    · cases List.mem_singleton.mp h₁
      exact absurd h₂ (fresh q₂)
    · cases List.mem_singleton.mp h₁
      cases List.mem_singleton.mp h₂
      rfl
  responded := by
    intro i r hr
    have hr' : .respond i r ∈ x.history := by simpa using hr
    obtain ⟨hnone, q', hq'⟩ := htrack.responded i r hr'
    have hid : i ≠ id := fun heq => fresh q' (heq ▸ hq')
    refine ⟨?_, q', List.mem_append_left _ hq'⟩
    change Function.update x.inflight id (some p) i = none
    rwa [Function.update_of_ne hid]
  running := by
    intro i p' hp'
    rcases update_some_cases hp' with ⟨rfl, hv⟩ | ⟨hid, hp'⟩
    · cases hv
      exact ⟨q, List.mem_append_right _ (List.mem_singleton_self _), hK, hnK⟩
    · obtain ⟨q', hq', hKq', hnKq'⟩ := htrack.running i p' hp'
      exact ⟨q', List.mem_append_left _ hq',
        fun hk => (hKq' hk).mono hsub fun a ha hno => hnew a ha hno ▸ Ne.symm hid, hnKq'⟩

theorem Tracked.call (htrack : Tracked prog K seen silent x order) {order' : List (Entry Q ρ)}
    {id : ℕ} {q : Q} {p p' : Program C Ans ρ} (hrun : x.inflight id = some p)
    (hq : .invoke id q ∈ x.history) (hsub : ∀ a ∈ order, a ∈ order')
    (hnew : ∀ a ∈ order', a ∉ order → a.id = id)
    (hK : K q → Progress prog seen order' id q p')
    (hnK : ¬ K q → p'.Calls silent) (t : σ) :
    Tracked prog K seen silent ⟨t, Function.update x.inflight id (some p'), x.history⟩ order' where
  invoked_once := htrack.invoked_once
  responded := by
    intro i r hr
    obtain ⟨hnone, hinv⟩ := htrack.responded i r hr
    have hid : i ≠ id := fun heq => by
      rw [heq, hrun] at hnone
      cases hnone
    refine ⟨?_, hinv⟩
    change Function.update x.inflight id (some p') i = none
    rwa [Function.update_of_ne hid]
  running := by
    intro i p'' hp''
    rcases update_some_cases hp'' with ⟨rfl, hv⟩ | ⟨hid, hp''⟩
    · cases hv
      exact ⟨q, hq, hK, hnK⟩
    · obtain ⟨q', hq', hKq', hnKq'⟩ := htrack.running i p'' hp''
      exact ⟨q', hq', fun hk => (hKq' hk).mono hsub fun a ha hno => hnew a ha hno ▸ Ne.symm hid,
        hnKq'⟩

theorem Tracked.respond (htrack : Tracked prog K seen silent x order) {id : ℕ} {r : ρ}
    (done : x.inflight id = some (.ret r)) :
    Tracked prog K seen silent
      ⟨x.shared, Function.update x.inflight id none, x.history ++ [.respond id r]⟩ order where
  invoked_once := by
    intro i q₁ q₂ h₁ h₂
    exact htrack.invoked_once i q₁ q₂ (by simpa using h₁) (by simpa using h₂)
  responded := by
    intro i r' hr'
    change Function.update x.inflight id none i = none ∧ _
    rcases List.mem_append.mp hr' with hr' | hr'
    · obtain ⟨hnone, q, hq⟩ := htrack.responded i r' hr'
      refine ⟨?_, q, List.mem_append_left _ hq⟩
      by_cases hid : i = id
      · rw [hid, Function.update_self]
      · rwa [Function.update_of_ne hid]
    · cases List.mem_singleton.mp hr'
      obtain ⟨q, hq, -⟩ := htrack.running _ _ done
      exact ⟨Function.update_self .., q, List.mem_append_left _ hq⟩
  running := by
    intro i p hp
    rcases update_some_cases hp with ⟨-, hv⟩ | ⟨-, hp⟩
    · cases hv
    · obtain ⟨q, hq, hrest⟩ := htrack.running i p hp
      exact ⟨q, List.mem_append_left _ hq, hrest⟩

/-- A call that leaves the abstract state alone leaves the order a linearization. -/
theorem IsLinearization.silent_call (hlin : IsLinearization prog K exec s abs x order) {id : ℕ}
    {p : Program C Ans ρ} {t : σ} (ht : abs t = abs x.shared) :
    IsLinearization prog K exec s abs
      ⟨t, Function.update x.inflight id (some p), x.history⟩ order := by
  refine ⟨hlin.nodup, hlin.complete, ?_, hlin.realTime, ?_⟩
  swap
  · rw [ht]
    exact hlin.served
  intro a ha
  obtain ⟨hKa, hinv, hdone⟩ := hlin.sound a ha
  refine ⟨hKa, hinv, hdone.imp_right fun hne => ?_⟩
  change Function.update x.inflight id _ a.id ≠ none
  by_cases hid : a.id = id
  · rw [hid]
    exact update_self_ne_none
  · rwa [Function.update_of_ne hid]

section Simulation

variable [Nonempty ε]
  (hK : ∀ q, K q → Atomic seen (prog q)) (hnK : ∀ q, ¬ K q → (prog q).Calls silent)
  (hsilent : ∀ c e s, silent c → abs (exec c e s).2 = abs s)
  (hskip : ∀ c e s, ¬ seen c → abs (exec c e s).2 = abs s)
  (hcall : ∀ c e s t, seen c → abs s = abs t →
    (exec c e s).1 = (exec c e t).1 ∧ abs (exec c e s).2 = abs (exec c e t).2)

include hK hnK hskip hcall in
theorem linearization_invoke (hlin : IsLinearization prog K exec s abs x order)
    (htrack : Tracked prog K seen silent x order) {id : ℕ} {q : Q}
    (fresh : ∀ q', .invoke id q' ∉ x.history) :
    ∃ order', IsLinearization prog K exec s abs
        ⟨x.shared, Function.update x.inflight id (some (prog q)), x.history ++ [.invoke id q]⟩
        order' ∧
      Tracked prog K seen silent
        ⟨x.shared, Function.update x.inflight id (some (prog q)), x.history ++ [.invoke id q]⟩
        order' := by
  have hlin' := hlin.invoke htrack (q := q) fresh (prog q)
  have hno : ∀ a ∈ order, a.id ≠ id := fun a ha heq =>
    fresh a.request (heq ▸ (hlin.sound a ha).2.1)
  by_cases hKq : K q
  · rcases hK q hKq with ⟨r, hshows⟩ | ⟨c, f, hc, hshows⟩
    · -- no visible call: the request is placed where it is sent
      refine ⟨order ++ [⟨id, q, r⟩], hlin'.snoc (a := ⟨id, q, r⟩) hKq ?_ ?_ hno ?_
          (fun _ _ => rfl) (fun u hu => hshows.exists_runs hskip hcall (Runs.ret r x.shared) hu),
        htrack.invoke fresh (fun a ha => List.mem_append_left _ ha) ?_
          (fun _ => Or.inl ⟨r, List.mem_append_right _ (List.mem_singleton_self _), hshows⟩)
          fun hno => absurd hKq hno⟩
      · exact List.mem_append_right _ (List.mem_singleton_self _)
      · intro r' hr'
        have hr'' : .respond id r' ∈ x.history := by simpa using hr'
        obtain ⟨-, q', hq'⟩ := htrack.responded id r' hr''
        exact fresh q' hq'
      · exact update_self_ne_none
      · intro a ha hmem
        rcases List.mem_append.mp ha with ha | ha
        · exact absurd ha hmem
        · rw [List.mem_singleton.mp ha]
    · exact ⟨order, hlin', htrack.invoke fresh (fun _ ha => ha) (fun _ ha hmem => absurd ha hmem)
        (fun _ => Or.inr ⟨hno, c, f, hc, hshows, hshows⟩) fun hno => absurd hKq hno⟩
  · exact ⟨order, hlin', htrack.invoke fresh (fun _ ha => ha) (fun _ ha hmem => absurd ha hmem)
      (fun hk => absurd hk hKq) fun _ => hnK q hKq⟩

include hsilent hskip hcall in
theorem linearization_call (hlin : IsLinearization prog K exec s abs x order)
    (htrack : Tracked prog K seen silent x order) {id : ℕ} {c : C} {k : Ans c → Program C Ans ρ}
    (e : ε) (hrun : x.inflight id = some (.call c k)) :
    ∃ order', IsLinearization prog K exec s abs
        ⟨(exec c e x.shared).2, Function.update x.inflight id (some (k (exec c e x.shared).1)),
          x.history⟩ order' ∧
      Tracked prog K seen silent
        ⟨(exec c e x.shared).2, Function.update x.inflight id (some (k (exec c e x.shared).1)),
          x.history⟩ order' := by
  obtain ⟨q, hq, hKp, hnKp⟩ := htrack.running id _ hrun
  by_cases hKq : K q
  swap
  · -- a request outside `K`
    exact ⟨order, hlin.silent_call (hsilent c e _ (hnKp hKq).1),
      htrack.call hrun hq (fun _ ha => ha) (fun _ ha hmem => absurd ha hmem)
        (fun hk => absurd hk hKq) (fun hno => (hnKp hno).2 _) _⟩
  by_cases hc : seen c
  · -- a visible call: only a request that is not in the order yet can make it
    rcases hKp hKq with ⟨r, -, hshows⟩ | ⟨hno, c', f, -, hshows, hprog⟩
    · obtain ⟨l, hl, -⟩ := hshows.of_call_seen hc
      cases hl
    obtain ⟨l, hl, hrest⟩ := hshows.of_call_seen hc
    cases hl
    -- running it alone with the same input, from where the order has come to, does the same
    have halone : Runs exec (.call c fun y => .ret (f y)) x.shared (f (exec c e x.shared).1)
        (exec c e x.shared).2 :=
      Runs.call c _ e x.shared _ _ (Runs.ret _ _)
    refine ⟨order ++ [⟨id, q, f (exec c e x.shared).1⟩],
      hlin.snoc (a := ⟨id, q, f (exec c e x.shared).1⟩) hKq hq
        (fun r => htrack.not_responded hrun r) hno update_self_ne_none
        (fun i hi => Function.update_of_ne hi _ _)
        (fun u hu => hprog.exists_runs hskip hcall halone hu),
      htrack.call hrun hq (fun a ha => List.mem_append_left _ ha) ?_
        (fun _ => Or.inl ⟨_, List.mem_append_right _ (List.mem_singleton_self _), hrest _⟩)
        (fun hno => absurd hKq hno) _⟩
    intro a ha hmem
    rcases List.mem_append.mp ha with ha | ha
    · exact absurd ha hmem
    · rw [List.mem_singleton.mp ha]
  · -- an unseen call: what the program shows stays
    refine ⟨order, hlin.silent_call (hskip c e x.shared hc),
      htrack.call hrun hq (fun _ ha => ha) (fun _ ha hmem => absurd ha hmem) ?_
        (fun hno => absurd hKq hno) _⟩
    intro hKq
    rcases hKp hKq with ⟨r, hr, hshows⟩ | ⟨hno, c', f, hc', hshows, hprog⟩
    · exact Or.inl ⟨r, hr, hshows.of_call_unseen hc _⟩
    · exact Or.inr ⟨hno, c', f, hc', hshows.of_call_unseen hc _, hprog⟩

include hK hnK hsilent hskip hcall in
/-- **Linearizability.**  If the programs of `K` are atomic and the others make only silent calls,
which leave the abstract state alone, and if what a visible call answers and does to the abstract
state depends on nothing but that state and its input, then every reachable configuration has a
linearization. -/
theorem Reachable.linearization (hx : Reachable prog exec s x) :
    ∃ order, IsLinearization prog K exec s abs x order := by
  suffices hboth : ∃ order, IsLinearization prog K exec s abs x order ∧
      Tracked prog K seen silent x order by
    obtain ⟨order, hlin, -⟩ := hboth
    exact ⟨order, hlin⟩
  induction hx with
  | refl => exact ⟨[], start_isLinearization, start_tracked⟩
  | tail _ hstep ih =>
    obtain ⟨order, hlin, htrack⟩ := ih
    cases hstep with
    | invoke id q fresh => exact linearization_invoke hK hnK hskip hcall hlin htrack fresh
    | call id c k e hrun =>
      exact linearization_call hsilent hskip hcall hlin htrack e hrun
    | respond id r done => exact ⟨order, hlin.respond htrack done, htrack.respond done⟩

end Simulation

/-- When no request is being served, the requests of a linearization are the answered ones. -/
theorem IsLinearization.mem_iff_of_quiet (hlin : IsLinearization prog K exec s abs x order)
    (hquiet : x.Quiet) (a : Entry Q ρ) :
    a ∈ order ↔ K a.request ∧ .invoke a.id a.request ∈ x.history ∧
      .respond a.id a.answer ∈ x.history := by
  constructor
  · intro ha
    obtain ⟨hKa, hinv, hdone⟩ := hlin.sound a ha
    exact ⟨hKa, hinv, hdone.resolve_right fun hne => hne (hquiet a.id)⟩
  · rintro ⟨hKa, hinv, hresp⟩
    exact hlin.complete a.id a.request a.answer hinv hresp hKa

end Linearization

end Interleaving
end MultiPlayerGame
