import MultiPlayerGame.Library.Interleaving

/-!
# Runs with their worlds listed

`Interleaving.Reachable` forgets how a configuration was reached.  For an invariant that is as it
should be.  But there are properties of runs that no invariant of a configuration expresses, since
they speak of the order in which steps were taken: this was done before that, nobody did such a
thing in between, the property holds after every step.  `Traced` keeps what is needed to say so.
A trace lists the calls made, oldest first, each with who made it, what it was answered, and the
shared state it found and left.

## Conditions on one run

A condition on a step of a run is a predicate on the trace before it and on the step itself:
`P past m`.  It is met throughout when it holds at every place where the trace can be cut,

    ∀ past m later, trace = past ++ m :: later → P past m,

which says nothing about how the run was found and hides no state.  `cuts_concat` takes this apart
at the end of a trace, which is where inductions over `Traced` need it.

Two such statements about *the same* run can be compared, and `Traced.good_iff` is the rule for it:
if, as long as everything has been good, a step leaves things good exactly when it meets the
condition, then in every run all states are good exactly if all steps meet the condition.  A
statement that only says when there is *some* run with each of the two properties would be weaker,
since the two runs need not pass through the same states.

## What does not change in between

The states of a trace hang together: each step finds what the one before has left.  So what no step
of a segment changes is the same at both ends of it (`Traced.unchanged`).
-/

namespace MultiPlayerGame
namespace Interleaving

open Program (Runs)

variable {C : Type} {Ans : C → Type} {Q ρ σ τ ε : Type}

/-- A call that has been made: the shared state it found, who made it, what it was answered, and the
shared state it left. -/
structure Made {C : Type} (Ans : C → Type) (σ : Type) where
  before : σ
  id : ℕ
  call : C
  answer : Ans call
  after : σ

/-- `Traced prog exec s x trace`: the configuration can be reached from `s` by the calls listed in
`trace`, oldest first. -/
inductive Traced (prog : Q → Program C Ans ρ) (exec : (c : C) → ε → σ → Ans c × σ) (s : σ) :
    Config C Ans Q ρ σ → List (Made Ans σ) → Prop where
  | start : Traced prog exec s (.start s) []
  | invoke {x : Config C Ans Q ρ σ} {trace : List (Made Ans σ)}
      (before : Traced prog exec s x trace) (id : ℕ) (q : Q)
      (fresh : ∀ q', .invoke id q' ∉ x.history) :
      Traced prog exec s
        ⟨x.shared, Function.update x.inflight id (some (prog q)), x.history ++ [.invoke id q]⟩ trace
  | call {x : Config C Ans Q ρ σ} {trace : List (Made Ans σ)}
      (before : Traced prog exec s x trace) (id : ℕ) (c : C) (k : Ans c → Program C Ans ρ) (e : ε)
      (running : x.inflight id = some (.call c k)) :
      Traced prog exec s
        ⟨(exec c e x.shared).2, Function.update x.inflight id (some (k (exec c e x.shared).1)),
          x.history⟩
        (trace ++ [⟨x.shared, id, c, (exec c e x.shared).1, (exec c e x.shared).2⟩])
  | respond {x : Config C Ans Q ρ σ} {trace : List (Made Ans σ)}
      (before : Traced prog exec s x trace) (id : ℕ) (r : ρ)
      (done : x.inflight id = some (.ret r)) :
      Traced prog exec s
        ⟨x.shared, Function.update x.inflight id none, x.history ++ [.respond id r]⟩ trace

/-! ## Cutting a trace -/

/-- A condition on all places where a list can be cut, taken apart at the end of the list. -/
theorem cuts_concat {α : Type} {P : List α → α → Prop} {l : List α} {a : α} :
    (∀ past m later, l ++ [a] = past ++ m :: later → P past m) ↔
      (∀ past m later, l = past ++ m :: later → P past m) ∧ P l a := by
  constructor
  · refine fun h => ⟨fun past m later heq => h past m (later ++ [a]) ?_, h l a [] rfl⟩
    rw [heq, List.append_assoc, List.cons_append]
  · rintro ⟨hl, ha⟩ past m later heq
    rcases List.eq_nil_or_concat later with rfl | ⟨later', b, rfl⟩
    · obtain ⟨rfl, hlast⟩ := List.append_inj' heq rfl
      cases hlast
      exact ha
    · rw [List.concat_eq_append, ← List.cons_append, ← List.append_assoc] at heq
      exact hl past m later' (List.append_inj' heq rfl).1

/-- The empty list can be cut nowhere. -/
theorem cuts_nil {α : Type} {P : List α → α → Prop} :
    ∀ past m later, ([] : List α) = past ++ m :: later → P past m := fun _ _ _ h =>
  absurd h.symm (List.append_ne_nil_of_right_ne_nil _ (List.cons_ne_nil _ _))

/-- A condition goes on being met when what follows meets it wherever it stands. -/
theorem cuts_append {α : Type} {P : List α → α → Prop} {l l' : List α}
    (h : ∀ past m later, l = past ++ m :: later → P past m) (hl' : ∀ m ∈ l', ∀ past, P past m) :
    ∀ past m later, l ++ l' = past ++ m :: later → P past m := by
  induction l' using List.reverseRecOn with
  | nil => rwa [List.append_nil]
  | append_singleton l' a ih =>
    rw [← List.append_assoc]
    exact cuts_concat.mpr ⟨ih fun m hm => hl' m (List.mem_append_left _ hm),
      hl' a (List.mem_append_right _ (List.mem_singleton_self _)) _⟩

section Traces

variable {prog : Q → Program C Ans ρ} {exec : (c : C) → ε → σ → Ans c × σ} {s : σ}
  {x : Config C Ans Q ρ σ} {trace : List (Made Ans σ)}

theorem Traced.reachable (h : Traced prog exec s x trace) : Reachable prog exec s x := by
  induction h with
  | start => exact .refl
  | invoke _ id q fresh ih => exact ih.tail (.invoke _ id q fresh)
  | call _ id c k e running ih => exact ih.tail (.call _ id c k e running)
  | respond _ id r done ih => exact ih.tail (.respond _ id r done)

/-- What can be reached can be reached by some trace, so that a statement about every trace speaks
of every run. -/
theorem Reachable.traced (hx : Reachable prog exec s x) : ∃ trace, Traced prog exec s x trace := by
  induction hx with
  | refl => exact ⟨[], .start⟩
  | tail _ hstep ih =>
    obtain ⟨trace, h⟩ := ih
    cases hstep with
    | invoke id q fresh => exact ⟨trace, h.invoke id q fresh⟩
    | call id c k e running => exact ⟨_, h.call id c k e running⟩
    | respond id r done => exact ⟨trace, h.respond id r done⟩

/-- A trace without its worlds is a log. -/
theorem Traced.logged (h : Traced prog exec s x trace) :
    Logged prog exec s x (trace.map fun m => (m.id, ⟨m.call, m.answer⟩)) := by
  induction h with
  | start => exact .start
  | invoke _ id q fresh ih => exact ih.invoke id q fresh
  | call _ id c k e running ih =>
    rw [List.map_append]
    exact ih.call id c k e running
  | respond _ id r done ih => exact ih.respond id r done

/-- **What no step of a segment changes is the same at both ends of it.**  Only the steps of the
segment are looked at, not the states they are made in. -/
theorem Traced.unchanged (f : σ → τ) (h : Traced prog exec s x trace)
    {past between : List (Made Ans σ)}
    {m : Made Ans σ} (htrace : trace = past ++ m :: between)
    (hsame : ∀ m' ∈ between, f m'.after = f m'.before) : f x.shared = f m.after := by
  induction h generalizing between with
  | start => exact absurd htrace.symm (List.append_ne_nil_of_right_ne_nil _ (List.cons_ne_nil _ _))
  | invoke _ _ _ _ ih => exact ih htrace hsame
  | respond _ _ _ _ ih => exact ih htrace hsame
  | call before id c k e running ih =>
    rcases List.eq_nil_or_concat between with rfl | ⟨between', last, rfl⟩
    · obtain ⟨-, hlast⟩ := List.append_inj' htrace rfl
      rw [← List.head_eq_of_cons_eq hlast]
    · rw [List.concat_eq_append, ← List.cons_append, ← List.append_assoc] at htrace
      obtain ⟨htrace, hlast⟩ := List.append_inj' htrace rfl
      have hearlier := ih htrace fun m' hm' => hsame m' (by
        rw [List.concat_eq_append]
        exact List.mem_append_left _ hm')
      have hlater := hsame last (by
        rw [List.concat_eq_append]
        exact List.mem_append_right _ (List.mem_singleton_self _))
      rw [← List.head_eq_of_cons_eq hlast] at hlater
      exact hlater.trans hearlier

/-- **All states of a run are good exactly if all its steps meet the condition**, when that is so
for a single step of a run in which everything has been good. -/
theorem Traced.good_iff (Good : σ → Prop) {P : List (Made Ans σ) → Made Ans σ → Prop}
    (hs : Good s)
    (hcall : ∀ (x : Config C Ans Q ρ σ) trace id c k e, Traced prog exec s x trace →
      (∀ m ∈ trace, Good m.after) → Good x.shared → x.inflight id = some (.call c k) →
      (Good (exec c e x.shared).2 ↔
        P trace ⟨x.shared, id, c, (exec c e x.shared).1, (exec c e x.shared).2⟩))
    (h : Traced prog exec s x trace) :
    (∀ m ∈ trace, Good m.after) ↔ ∀ past m later, trace = past ++ m :: later → P past m := by
  suffices hboth : ((∀ m ∈ trace, Good m.after) ↔
      ∀ past m later, trace = past ++ m :: later → P past m) ∧
      ((∀ m ∈ trace, Good m.after) → Good x.shared) from hboth.1
  induction h with
  | start => exact ⟨iff_of_true (fun _ hm => by cases hm) cuts_nil, fun _ => hs⟩
  | invoke _ _ _ _ ih => exact ih
  | respond _ _ _ _ ih => exact ih
  | call before id c k e running ih =>
    obtain ⟨hiff, hnow⟩ := ih
    have hall : ∀ (l : List (Made Ans σ)) (m : Made Ans σ),
        (∀ m' ∈ l ++ [m], Good m'.after) ↔ (∀ m' ∈ l, Good m'.after) ∧ Good m.after := fun l m => by
      rw [List.forall_mem_append, List.forall_mem_singleton]
    refine ⟨?_, fun hgood => ((hall _ _).mp hgood).2⟩
    rw [hall, cuts_concat, ← hiff]
    exact and_congr_right fun hgood =>
      hcall _ _ id c k e before hgood (hnow hgood) running

/-- A request may make all its remaining calls in a row. -/
theorem Traced.runs (h : Traced prog exec s x trace) (id : ℕ) {P : C → Prop}
    {p : Program C Ans ρ} {r : ρ} {t : σ} (hp : x.inflight id = some p) (hcalls : p.Calls P)
    (hruns : Runs exec p x.shared r t) :
    ∃ later, Traced prog exec s ⟨t, Function.update x.inflight id (some (.ret r)), x.history⟩
      (trace ++ later) ∧ ∀ m ∈ later, m.id = id ∧ P m.call := by
  obtain ⟨shared, inflight, history⟩ := x
  change Runs exec p shared r t at hruns
  change inflight id = some p at hp
  induction hruns generalizing inflight trace with
  | ret r s =>
    refine ⟨[], ?_, fun _ hm => by cases hm⟩
    rw [← hp, Function.update_eq_self, List.append_nil]
    exact h
  | call c k e s r t _ ih =>
    have hnext := h.call id c k e hp
    obtain ⟨later, hlater, hmade⟩ := ih (hcalls.2 _) _ hnext (Function.update_self ..)
    rw [Function.update_idem, List.append_assoc, List.singleton_append] at hlater
    refine ⟨_, hlater, fun m hm => ?_⟩
    rcases List.mem_cons.mp hm with rfl | hm
    · exact ⟨rfl, hcalls.1⟩
    · exact hmade m hm

end Traces

end Interleaving
end MultiPlayerGame
