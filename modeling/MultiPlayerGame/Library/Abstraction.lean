import MultiPlayerGame.Library.Interleaving

/-!
# Abstract programs, and interleavings of them

A program can be looked at through its calls.  A watcher does not see some of them, and sees the
others as calls of another signature, with less in the answers.  `Abstracts view out p q` says that
`p`, looked at in this way, is the program `q`, and that what `q` returns is `out` of what `p`
returns.

If the calls that are not seen leave an abstraction of the state alone, and the others act on it as
the calls they are seen as (`Refines`), then interleavings of concrete programs are interleavings of
the abstract ones: `Reachable.abstracts`.  The history stays the same but for `out`, so whatever is
known of the abstract programs in terms of what was asked, what was answered and when holds of the
concrete ones.
-/

namespace MultiPlayerGame

namespace Program

variable {C C' : Type} {Ans : C → Type} {Ans' : C' → Type} {α β γ δ : Type}

/-- How the calls are seen: not at all, or as calls of another signature, with what becomes of the
answers. -/
abbrev View (Ans : C → Type) (Ans' : C' → Type) : Type :=
  (c : C) → Option (Σ c' : C', (Ans c → Ans' c'))

/-- `p` is seen as `q`.  The answers of calls that are not seen influence neither the calls that are
nor the result. -/
inductive Abstracts (view : View Ans Ans') (out : α → β) :
    Program C Ans α → Program C' Ans' β → Prop where
  | ret (a : α) : Abstracts view out (ret a) (ret (out a))
  | skip {c : C} {k : Ans c → Program C Ans α} {q : Program C' Ans' β} (hc : view c = none)
      (hk : ∀ x, Abstracts view out (k x) q) : Abstracts view out (call c k) q
  | call {c : C} {c' : C'} {g : Ans c → Ans' c'} {k : Ans c → Program C Ans α}
      {l : Ans' c' → Program C' Ans' β} (hc : view c = some ⟨c', g⟩)
      (hk : ∀ x, Abstracts view out (k x) (l (g x))) : Abstracts view out (call c k) (call c' l)

namespace Abstracts

variable {view : View Ans Ans'} {out : α → β} {out' : γ → δ}

/-- Two stages in a row. -/
theorem bind {p : Program C Ans α} {q : Program C' Ans' β} {f : α → Program C Ans γ}
    {g : β → Program C' Ans' δ} (hp : Abstracts view out p q)
    (hf : ∀ a, Abstracts view out' (f a) (g (out a))) :
    Abstracts view out' (p >>= f) (q >>= g) := by
  induction hp with
  | ret a => exact hf a
  | skip hc _ ih => exact skip hc ih
  | call hc _ ih => exact Abstracts.call hc ih

theorem eq_of_ret {a : α} {q : Program C' Ans' β} (hp : Abstracts view out (.ret a) q) :
    q = .ret (out a) := by
  cases hp with
  | ret => rfl

theorem of_call_unseen {c : C} {k : Ans c → Program C Ans α} {q : Program C' Ans' β}
    (hp : Abstracts view out (.call c k) q) (hc : view c = none) (x : Ans c) :
    Abstracts view out (k x) q := by
  cases hp with
  | skip _ hk => exact hk x
  | call hc' _ =>
    rw [hc] at hc'
    cases hc'

theorem of_call_seen {c : C} {c' : C'} {g : Ans c → Ans' c'} {k : Ans c → Program C Ans α}
    {q : Program C' Ans' β} (hp : Abstracts view out (.call c k) q)
    (hc : view c = some ⟨c', g⟩) :
    ∃ l, q = .call c' l ∧ ∀ x, Abstracts view out (k x) (l (g x)) := by
  cases hp with
  | skip hc' _ =>
    rw [hc] at hc'
    cases hc'
  | call hc' hk =>
    rw [hc] at hc'
    cases hc'
    exact ⟨_, rfl, hk⟩

end Abstracts

/-- All calls are seen as what they are. -/
def plainly : View Ans Ans := fun c => some ⟨c, id⟩

/-- What is done with the result in the end is not seen in the calls. -/
theorem abstracts_result (p : Program C Ans α) (f : α → β) :
    Abstracts plainly f p (p >>= fun a => .ret (f a)) := by
  induction p with
  | ret a => exact .ret a
  | call c k ih => exact .call rfl ih

end Program

namespace Interleaving

open Program (View Abstracts plainly)

variable {C C' : Type} {Ans : C → Type} {Ans' : C' → Type} {Q Q' ρ ρ' σ τ ε ε' : Type}

/-- The same event, told with other requests and answers. -/
def Event.map (ask : Q → Q') (out : ρ → ρ') : Event Q ρ → Event Q' ρ'
  | .invoke id q => .invoke id (ask q)
  | .respond id r => .respond id (out r)

theorem invoke_mem_map {history : List (Event Q ρ)} {ask : Q → Q'} {out : ρ → ρ'} {id : ℕ}
    {q' : Q'} : .invoke id q' ∈ history.map (Event.map ask out) ↔
      ∃ q, .invoke id q ∈ history ∧ ask q = q' := by
  rw [List.mem_map]
  constructor
  · rintro ⟨ev, hev, heq⟩
    cases ev with
    | invoke =>
      cases heq
      exact ⟨_, hev, rfl⟩
    | respond => cases heq
  · rintro ⟨q, hq, rfl⟩
    exact ⟨_, hq, rfl⟩

theorem respond_mem_map {history : List (Event Q ρ)} {ask : Q → Q'} {out : ρ → ρ'} {id : ℕ}
    {r' : ρ'} : .respond id r' ∈ history.map (Event.map ask out) ↔
      ∃ r, .respond id r ∈ history ∧ out r = r' := by
  rw [List.mem_map]
  constructor
  · rintro ⟨ev, hev, heq⟩
    cases ev with
    | invoke => cases heq
    | respond =>
      cases heq
      exact ⟨_, hev, rfl⟩
  · rintro ⟨r, hr, rfl⟩
    exact ⟨_, hr, rfl⟩

/-- What the calls do to an abstraction of the state is what the calls they are seen as do. -/
structure Refines (view : View Ans Ans') (abs : σ → τ) (exec : (c : C) → ε → σ → Ans c × σ)
    (exec' : (c : C') → ε' → τ → Ans' c × τ) : Prop where
  unseen : ∀ c e s, view c = none → abs (exec c e s).2 = abs s
  seen : ∀ c e s c' g, view c = some ⟨c', g⟩ →
    ∃ e', exec' c' e' (abs s) = (g (exec c e s).1, abs (exec c e s).2)

theorem refines_plainly (exec : (c : C) → ε → σ → Ans c × σ) : Refines plainly id exec exec := by
  refine ⟨fun c e s hc => (by cases hc), fun c e s c' g hc => ?_⟩
  cases hc
  exact ⟨e, rfl⟩

/-- One configuration is another one, seen from outside.  The histories are the same up to what
requests and answers are seen as, and what is left of each program is seen as what is left of the
other. -/
structure Abstracted (view : View Ans Ans') (ask : Q → Q') (out : ρ → ρ') (abs : σ → τ)
    (x : Config C Ans Q ρ σ) (y : Config C' Ans' Q' ρ' τ) : Prop where
  shared : y.shared = abs x.shared
  history : y.history = x.history.map (Event.map ask out)
  inflight : ∀ id, Option.Rel (Abstracts view out) (x.inflight id) (y.inflight id)

section Simulation

variable {view : View Ans Ans'} {ask : Q → Q'} {out : ρ → ρ'} {abs : σ → τ}
  {prog : Q → Program C Ans ρ} {prog' : Q' → Program C' Ans' ρ'}
  {exec : (c : C) → ε → σ → Ans c × σ} {exec' : (c : C') → ε' → τ → Ans' c × τ} {s : σ}
  {x x' : Config C Ans Q ρ σ} {y : Config C' Ans' Q' ρ' τ}

theorem rel_update {α β : Type} {R : α → β → Prop} {f : ℕ → Option α} {g : ℕ → Option β}
    (h : ∀ id, Option.Rel R (f id) (g id)) {a : Option α} {b : Option β} (hab : Option.Rel R a b)
    (i id : ℕ) : Option.Rel R (Function.update f i a id) (Function.update g i b id) := by
  by_cases hid : id = i
  · rw [hid, Function.update_self, Function.update_self]
    exact hab
  · rw [Function.update_of_ne hid, Function.update_of_ne hid]
    exact h id

theorem Abstracted.rel (h : Abstracted view ask out abs x y) {id : ℕ} {p : Program C Ans ρ}
    (hp : x.inflight id = some p) : ∃ q, y.inflight id = some q ∧ Abstracts view out p q := by
  have hrel := h.inflight id
  rw [hp] at hrel
  generalize hq : y.inflight id = oq at hrel
  cases hrel with
  | some hpq => exact ⟨_, rfl, hpq⟩

theorem Abstracted.quiet_iff (h : Abstracted view ask out abs x y) : x.Quiet ↔ y.Quiet := by
  refine forall_congr' fun id => ?_
  have hrel := h.inflight id
  generalize x.inflight id = op at hrel
  generalize y.inflight id = oq at hrel
  cases hrel <;> simp

/-- **One step** of the concrete programs is a step of the abstract ones, or none.  A call that is
not seen leaves the abstract configuration as it is. -/
theorem Abstracted.step (href : Refines view abs exec exec')
    (hprog : ∀ q, Abstracts view out (prog q) (prog' (ask q)))
    (h : Abstracted view ask out abs x y) (hstep : Step prog exec x x') :
    ∃ y', Relation.ReflTransGen (Step prog' exec') y y' ∧ Abstracted view ask out abs x' y' := by
  cases hstep with
  | invoke id q fresh =>
    refine ⟨_, .single (.invoke y id (ask q) fun q' hq' => ?_), h.shared, ?_,
      rel_update h.inflight (.some (hprog q)) id⟩
    · rw [h.history] at hq'
      obtain ⟨q'', hq'', -⟩ := invoke_mem_map.mp hq'
      exact fresh q'' hq''
    · rw [h.history, List.map_append]
      rfl
  | call id c k e running =>
    obtain ⟨q, hq, habs⟩ := h.rel running
    cases hview : view c with
    | none =>
      refine ⟨y, .refl, h.shared.trans (href.unseen c e _ hview).symm, h.history, ?_⟩
      have hsame : Function.update y.inflight id (some q) = y.inflight := by
        rw [← hq, Function.update_eq_self]
      rw [← hsame]
      exact rel_update h.inflight (.some (habs.of_call_unseen hview (exec c e x.shared).1)) id
    | some seen =>
      obtain ⟨c', g⟩ := seen
      obtain ⟨l, rfl, hl⟩ := habs.of_call_seen hview
      obtain ⟨e', he'⟩ := href.seen c e x.shared c' g hview
      rw [← h.shared] at he'
      refine ⟨_, .single (.call y id c' l e' hq), ?_, h.history, ?_⟩
      · rw [he']
      · rw [he']
        exact rel_update h.inflight (.some (hl _)) id
  | respond id r done =>
    obtain ⟨q, hq, habs⟩ := h.rel done
    rw [habs.eq_of_ret] at hq
    refine ⟨_, .single (.respond y id (out r) hq), h.shared, ?_,
      rel_update h.inflight .none id⟩
    rw [h.history, List.map_append]
    rfl

/-- **Interleavings of programs are interleavings of what they are seen as.**  The shared state is
looked at through `abs`, the requests and the answers through the two other maps. -/
theorem Reachable.abstracts (href : Refines view abs exec exec')
    (hprog : ∀ q, Abstracts view out (prog q) (prog' (ask q))) (hx : Reachable prog exec s x) :
    ∃ y, Reachable prog' exec' (abs s) y ∧ Abstracted view ask out abs x y := by
  induction hx with
  | refl => exact ⟨.start (abs s), .refl, rfl, rfl, fun _ => .none⟩
  | tail _ hstep ih =>
    obtain ⟨y, hy, habs⟩ := ih
    obtain ⟨y', hsteps, habs'⟩ := habs.step href hprog hstep
    exact ⟨y', hy.trans hsteps, habs'⟩

end Simulation

end Interleaving
end MultiPlayerGame
