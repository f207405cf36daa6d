import Mathlib.Logic.Basic
import Mathlib.Tactic.Common
import Mathlib.Data.List.Induction

/-!
# Programs that call shared objects

A request handler does not own the state it works on: it computes, calls a method of a shared
object, computes on, calls another, and finally returns.  What lies between two calls is private,
so for everything that concerns the shared objects a handler is the tree of its calls.  `Program`
is that tree, over any signature of calls and answers.

One tree has three readings.  `run` performs all its calls at once on a state, which is the handler
running alone.  `Runs` does the same where every call gets an input from outside that nothing is
known about, and `Served` strings such runs together, one request after another.
`Library.Interleaving` takes the calls one at a time, so that the calls of several programs mix.

Three predicates describe a tree whatever its calls are answered:

* `Calls P`: every call it can make satisfies `P`;
* `Returns Q`: every value it can return satisfies `Q`;
* `Shows seen q`: watched only through the calls in `seen`, it is the program `q`.

The rule of the first one is `Calls.runs`: what every call preserves a run preserves.  The rule of
the last one is `Shows.exists_runs`: if unseen calls leave an abstraction of the state alone and
seen calls depend on nothing else, then what `q` can do from a state, `p` can do from every state
that looks the same.
-/

namespace MultiPlayerGame

/-- A program over calls `C`, where a call `c` is answered by an `Ans c`. -/
inductive Program (C : Type) (Ans : C → Type) (α : Type) where
  | ret (a : α)
  | call (c : C) (k : Ans c → Program C Ans α)

namespace Program

variable {C : Type} {Ans : C → Type} {α β γ σ τ : Type}

/-- Run one program, then another that may depend on its result. -/
def bind (p : Program C Ans α) (f : α → Program C Ans β) : Program C Ans β :=
  match p with
  | ret a => f a
  | call c k => call c fun x => (k x).bind f

instance : Monad (Program C Ans) where
  pure := ret
  bind := bind

/-- The program that makes one call and returns its answer. -/
def perform (c : C) : Program C Ans (Ans c) := call c ret

@[simp] theorem pure_eq (a : α) : (pure a : Program C Ans α) = ret a := rfl

@[simp] theorem ret_bind (a : α) (f : α → Program C Ans β) : ret a >>= f = f a := rfl

@[simp] theorem call_bind (c : C) (k : Ans c → Program C Ans α) (f : α → Program C Ans β) :
    call c k >>= f = call c fun x => k x >>= f := rfl

@[simp] theorem perform_bind (c : C) (f : Ans c → Program C Ans β) :
    perform c >>= f = call c f := rfl

theorem bind_ret (p : Program C Ans α) : p >>= ret = p := by
  induction p with
  | ret a => rfl
  | call c k ih => exact congrArg (call c) (funext ih)

theorem bind_bind (p : Program C Ans α) (f : α → Program C Ans β) (g : β → Program C Ans γ) :
    p >>= f >>= g = p >>= fun a => f a >>= g := by
  induction p with
  | ret a => rfl
  | call c k ih => exact congrArg (call c) (funext ih)

instance : LawfulMonad (Program C Ans) :=
  LawfulMonad.mk' _ bind_ret (fun _ _ => rfl) bind_bind

/-! ## Running alone -/

/-- Perform all the calls of a program, one after another, on a state. -/
def run (h : (c : C) → σ → Ans c × σ) : Program C Ans α → σ → α × σ
  | ret a, s => (a, s)
  | call c k, s => run h (k (h c s).1) (h c s).2

section Run

variable (h : (c : C) → σ → Ans c × σ)

@[simp] theorem run_ret (a : α) (s : σ) : run h (ret a) s = (a, s) := rfl

@[simp] theorem run_call (c : C) (k : Ans c → Program C Ans α) (s : σ) :
    run h (call c k) s = run h (k (h c s).1) (h c s).2 := rfl

end Run

/-! ## What a program can call and return -/

/-- Every call the program can make satisfies `P`, whatever the earlier ones were answered. -/
def Calls (P : C → Prop) : Program C Ans α → Prop
  | ret _ => True
  | call c k => P c ∧ ∀ x, (k x).Calls P

/-- Every value the program can return satisfies `Q`.  The calls may be answered in any way, so this
is a fact about the program and not about its runs. -/
def Returns (Q : α → Prop) : Program C Ans α → Prop
  | ret a => Q a
  | call _ k => ∀ x, (k x).Returns Q

section Predicates

variable {P P' : C → Prop} {Q Q' : α → Prop} {R : β → Prop}

@[simp] theorem calls_ret (a : α) : Calls P (ret a : Program C Ans α) := trivial

@[simp] theorem calls_call {c : C} {k : Ans c → Program C Ans α} :
    Calls P (call c k) ↔ P c ∧ ∀ x, (k x).Calls P := Iff.rfl

@[simp] theorem calls_perform {c : C} : Calls P (perform c : Program C Ans _) ↔ P c :=
  ⟨fun h => h.1, fun h => ⟨h, fun _ => trivial⟩⟩

@[simp] theorem returns_ret {a : α} : Returns Q (ret a : Program C Ans α) ↔ Q a := Iff.rfl

@[simp] theorem returns_call {c : C} {k : Ans c → Program C Ans α} :
    Returns Q (call c k) ↔ ∀ x, (k x).Returns Q := Iff.rfl

theorem Calls.mono (hP : ∀ c, P c → P' c) {p : Program C Ans α} (hp : p.Calls P) :
    p.Calls P' := by
  induction p with
  | ret a => trivial
  | call c k ih => exact ⟨hP c hp.1, fun x => ih x (hp.2 x)⟩

theorem Calls.bind {p : Program C Ans α} {f : α → Program C Ans β} (hp : p.Calls P)
    (hf : ∀ a, (f a).Calls P) : (p >>= f).Calls P := by
  induction p with
  | ret a => exact hf a
  | call c k ih => exact ⟨hp.1, fun x => ih x (hp.2 x)⟩

theorem Returns.bind {p : Program C Ans α} {f : α → Program C Ans β} (hp : p.Returns Q)
    (hf : ∀ a, Q a → (f a).Returns R) : (p >>= f).Returns R := by
  induction p with
  | ret a => exact hf a hp
  | call c k ih => exact fun x => ih x (hp x)

theorem returns_of_forall (hQ : ∀ a, Q a) (p : Program C Ans α) : p.Returns Q := by
  induction p with
  | ret a => exact hQ a
  | call c k ih => exact ih

end Predicates

/-! ## Watching a program through some of its calls -/

/-- `Shows seen p q`: a watcher who sees only the calls in `seen` cannot tell `p` from `q`.  The
answers of unseen calls influence neither the seen calls nor the result. -/
inductive Shows (seen : C → Prop) : Program C Ans α → Program C Ans α → Prop where
  | ret (a : α) : Shows seen (ret a) (ret a)
  | skip {c : C} {k : Ans c → Program C Ans α} {q : Program C Ans α} (hc : ¬ seen c)
      (hk : ∀ x, Shows seen (k x) q) : Shows seen (call c k) q
  | call {c : C} {k l : Ans c → Program C Ans α} (hc : seen c)
      (hk : ∀ x, Shows seen (k x) (l x)) : Shows seen (call c k) (call c l)

namespace Shows

variable {seen : C → Prop}

/-- Unseen calls in front of a program. -/
theorem bind_skip {p : Program C Ans α} {f : α → Program C Ans β} {q : Program C Ans β}
    (hp : p.Calls fun c => ¬ seen c) (hf : ∀ a, Shows seen (f a) q) : Shows seen (p >>= f) q := by
  induction p with
  | ret a => exact hf a
  | call c k ih => exact skip hp.1 fun x => ih x (hp.2 x)

/-- Two stages in a row. -/
theorem bind {p q : Program C Ans α} {f g : α → Program C Ans β} (hp : Shows seen p q)
    (hf : ∀ a, Shows seen (f a) (g a)) : Shows seen (p >>= f) (q >>= g) := by
  induction hp with
  | ret a => exact hf a
  | skip hc _ ih => exact skip hc ih
  | call hc _ ih => exact Shows.call hc ih

/-! ### Taking a step of what is shown -/

theorem of_call_unseen {c : C} {k : Ans c → Program C Ans α} {q : Program C Ans α}
    (hp : Shows seen (.call c k) q) (hc : ¬ seen c) (x : Ans c) : Shows seen (k x) q := by
  cases hp with
  | skip _ hk => exact hk x
  | call hc' _ => exact absurd hc' hc

theorem of_call_seen {c : C} {k : Ans c → Program C Ans α} {q : Program C Ans α}
    (hp : Shows seen (.call c k) q) (hc : seen c) :
    ∃ l, q = .call c l ∧ ∀ x, Shows seen (k x) (l x) := by
  cases hp with
  | skip hc' _ => exact absurd hc hc'
  | call _ hk => exact ⟨_, rfl, hk⟩

theorem eq_of_ret {a : α} {q : Program C Ans α} (hp : Shows seen (.ret a) q) : q = .ret a := by
  cases hp with
  | ret => rfl

end Shows

/-! ## Running with inputs from outside -/

variable {ε : Type}

/-- Running alone where each call may get any input from outside: a clock, the network, another
process.  `Runs exec p s a t`: from `s` the program can return `a` and leave `t`. -/
inductive Runs (exec : (c : C) → ε → σ → Ans c × σ) : Program C Ans α → σ → α → σ → Prop where
  | ret (a : α) (s : σ) : Runs exec (ret a) s a s
  | call (c : C) (k : Ans c → Program C Ans α) (e : ε) (s : σ) (a : α) (t : σ)
      (rest : Runs exec (k (exec c e s).1) (exec c e s).2 a t) : Runs exec (call c k) s a t

section Runs

variable {exec : (c : C) → ε → σ → Ans c × σ} {s t u : σ}

theorem runs_ret {a b : α} : Runs exec (ret a) s b t ↔ b = a ∧ t = s := by
  constructor
  · intro h
    cases h
    exact ⟨rfl, rfl⟩
  · rintro ⟨rfl, rfl⟩
    exact Runs.ret b t

theorem runs_call {c : C} {k : Ans c → Program C Ans α} {a : α} :
    Runs exec (call c k) s a t ↔ ∃ e, Runs exec (k (exec c e s).1) (exec c e s).2 a t := by
  constructor
  · intro h
    cases h with
    | call _ _ e _ _ _ rest => exact ⟨e, rest⟩
  · rintro ⟨e, rest⟩
    exact Runs.call c k e s a t rest

theorem runs_bind {p : Program C Ans α} {f : α → Program C Ans β} {b : β} :
    Runs exec (p >>= f) s b u ↔ ∃ a t, Runs exec p s a t ∧ Runs exec (f a) t b u := by
  induction p generalizing s with
  | ret a =>
    constructor
    · exact fun h => ⟨a, s, Runs.ret a s, h⟩
    · rintro ⟨a', t, hp, hf⟩
      obtain ⟨rfl, rfl⟩ := runs_ret.mp hp
      exact hf
  | call c k ih =>
    rw [call_bind, runs_call]
    constructor
    · rintro ⟨e, h⟩
      obtain ⟨a, t, hp, hf⟩ := (ih _).mp h
      exact ⟨a, t, runs_call.mpr ⟨e, hp⟩, hf⟩
    · rintro ⟨a, t, hp, hf⟩
      obtain ⟨e, hp⟩ := runs_call.mp hp
      exact ⟨e, (ih _).mpr ⟨a, t, hp, hf⟩⟩

/-- Running a program on the same input throughout is one way to run it. -/
theorem runs_run (exec : (c : C) → ε → σ → Ans c × σ) (e : ε) (p : Program C Ans α) (s : σ) :
    Runs exec p s (p.run (fun c => exec c e) s).1 (p.run (fun c => exec c e) s).2 := by
  induction p generalizing s with
  | ret a => exact Runs.ret a s
  | call c k ih => exact Runs.call c k e s _ _ (ih _ _)

/-- Every program runs to its end. -/
theorem exists_runs [Nonempty ε] (exec : (c : C) → ε → σ → Ans c × σ) (p : Program C Ans α)
    (s : σ) : ∃ a t, Runs exec p s a t := by
  obtain ⟨e⟩ := ‹Nonempty ε›
  exact ⟨_, _, runs_run exec e p s⟩

/-- A run on some inputs is a run on more inputs. -/
theorem Runs.mono {ε' : Type} {exec' : (c : C) → ε' → σ → Ans c × σ}
    (hexec : ∀ c e s, ∃ e', exec' c e' s = exec c e s) {p : Program C Ans α} {a : α}
    (h : Runs exec p s a t) : Runs exec' p s a t := by
  induction h with
  | ret a s => exact Runs.ret a s
  | call c k e s a t _ ih =>
    obtain ⟨e', he'⟩ := hexec c e s
    refine runs_call.mpr ⟨e', ?_⟩
    rw [he']
    exact ih

theorem Returns.runs {Q : α → Prop} {p : Program C Ans α} (hp : p.Returns Q) {a : α}
    (h : Runs exec p s a t) : Q a := by
  induction h with
  | ret a => exact hp
  | call c k e s a t _ ih => exact ih (hp _)

/-- **The invariant rule.**  What every call of the program preserves, its run preserves.  Nothing
is asked of the answers: the program may make any of its calls next. -/
theorem Calls.runs {P : C → Prop} (Inv : σ → Prop)
    (hstep : ∀ c e s, P c → Inv s → Inv (exec c e s).2) {p : Program C Ans α} (hp : p.Calls P)
    (hs : Inv s) {a : α} (h : Runs exec p s a t) : Inv t := by
  induction h with
  | ret => exact hs
  | call c k e s a t _ ih => exact ih (hp.2 _) (hstep c e s hp.1 hs)

theorem Calls.runs_eq {P : C → Prop} (abs : σ → τ)
    (hstep : ∀ c e s, P c → abs (exec c e s).2 = abs s) {p : Program C Ans α} (hp : p.Calls P)
    {a : α} (h : Runs exec p s a t) : abs t = abs s :=
  Calls.runs (fun t => abs t = abs s) (fun c e t hc ht => (hstep c e t hc).trans ht) hp rfl h

/-- **The simulation rule.**  What is shown can be done, from any state that looks the same. -/
theorem Shows.exists_runs [Nonempty ε] {seen : C → Prop} {abs : σ → τ}
    (hskip : ∀ c e s, ¬ seen c → abs (exec c e s).2 = abs s)
    (hcall : ∀ c e s t, seen c → abs s = abs t →
      (exec c e s).1 = (exec c e t).1 ∧ abs (exec c e s).2 = abs (exec c e t).2)
    {p q : Program C Ans α} (hp : Shows seen p q) {a : α} (h : Runs exec q s a t)
    (hs : abs u = abs s) : ∃ t', Runs exec p u a t' ∧ abs t' = abs t := by
  induction hp generalizing s u with
  | ret a =>
    obtain ⟨rfl, rfl⟩ := runs_ret.mp h
    exact ⟨u, Runs.ret _ u, hs⟩
  | skip hc _ ih =>
    obtain ⟨e⟩ := ‹Nonempty ε›
    obtain ⟨t', hrest, ht'⟩ := ih _ h ((hskip _ e u hc).trans hs)
    exact ⟨t', runs_call.mpr ⟨e, hrest⟩, ht'⟩
  | call hc _ ih =>
    obtain ⟨e, h⟩ := runs_call.mp h
    obtain ⟨hans, habs⟩ := hcall _ e u s hc hs
    obtain ⟨t', hrest, ht'⟩ := ih _ h habs
    rw [← hans] at hrest
    exact ⟨t', runs_call.mpr ⟨e, hrest⟩, ht'⟩

end Runs

/-! ## Conditions on the inputs -/

/-- `RunsWhere P exec p s a t`: running alone where the input of every call, in the state it finds,
satisfies `P`. -/
inductive RunsWhere (P : C → ε → σ → Prop) (exec : (c : C) → ε → σ → Ans c × σ) :
    Program C Ans α → σ → α → σ → Prop where
  | ret (a : α) (s : σ) : RunsWhere P exec (ret a) s a s
  | call (c : C) (k : Ans c → Program C Ans α) (e : ε) (s : σ) (a : α) (t : σ) (holds : P c e s)
      (rest : RunsWhere P exec (k (exec c e s).1) (exec c e s).2 a t) :
      RunsWhere P exec (call c k) s a t

section RunsWhere

variable {P : C → ε → σ → Prop} {exec : (c : C) → ε → σ → Ans c × σ} {s t u : σ}

theorem RunsWhere.runs {p : Program C Ans α} {a : α} (h : RunsWhere P exec p s a t) :
    Runs exec p s a t := by
  induction h with
  | ret a s => exact Runs.ret a s
  | call c k e s a t _ _ ih => exact Runs.call c k e s a t ih

/-- A condition that holds anyway. -/
theorem Runs.where_true (hP : ∀ c e s, P c e s) {p : Program C Ans α} {a : α}
    (h : Runs exec p s a t) : RunsWhere P exec p s a t := by
  induction h with
  | ret a s => exact RunsWhere.ret a s
  | call c k e s a t _ ih => exact RunsWhere.call c k e s a t (hP c e s) ih

/-- Running a program on the same input throughout, one that always satisfies the condition. -/
theorem runsWhere_run {e : ε} (hP : ∀ c s, P c e s) (p : Program C Ans α) (s : σ) :
    RunsWhere P exec p s (p.run (fun c => exec c e) s).1 (p.run (fun c => exec c e) s).2 := by
  induction p generalizing s with
  | ret a => exact RunsWhere.ret a s
  | call c k ih => exact RunsWhere.call c k e s _ _ (hP c s) (ih _ _)

theorem RunsWhere.ret_inv {a b : α} (h : RunsWhere P exec (.ret a) s b t) : b = a ∧ t = s := by
  cases h
  exact ⟨rfl, rfl⟩

theorem RunsWhere.call_inv {c : C} {k : Ans c → Program C Ans α} {a : α}
    (h : RunsWhere P exec (.call c k) s a t) :
    ∃ e, P c e s ∧ RunsWhere P exec (k (exec c e s).1) (exec c e s).2 a t := by
  cases h with
  | call _ _ e _ _ _ holds rest => exact ⟨e, holds, rest⟩

theorem RunsWhere.bind_inv {p : Program C Ans α} {f : α → Program C Ans β} {b : β}
    (h : RunsWhere P exec (p >>= f) s b u) :
    ∃ a t, RunsWhere P exec p s a t ∧ RunsWhere P exec (f a) t b u := by
  induction p generalizing s with
  | ret a => exact ⟨a, s, RunsWhere.ret a s, h⟩
  | call c k ih =>
    obtain ⟨e, holds, hrest⟩ := RunsWhere.call_inv h
    obtain ⟨a, t, hp, hf⟩ := ih _ hrest
    exact ⟨a, t, RunsWhere.call c k e s a t holds hp, hf⟩

end RunsWhere

/-! ## The log of a shared state -/

/-- `Performed exec s log t`: from `s`, the calls of `log` are performed one after another, whoever
makes them, each answered as logged there, and leave `t`. -/
inductive Performed (exec : (c : C) → ε → σ → Ans c × σ) (s : σ) :
    List (Σ c, Ans c) → σ → Prop where
  | nil : Performed exec s [] s
  | snoc {past : List (Σ c, Ans c)} {t : σ} (before : Performed exec s past t) (c : C) (e : ε) :
      Performed exec s (past ++ [⟨c, (exec c e t).1⟩]) (exec c e t).2

/-- Running a program performs some calls. -/
theorem Performed.runs {exec : (c : C) → ε → σ → Ans c × σ} {s t u : σ} {past : List (Σ c, Ans c)}
    (h : Performed exec s past t) {p : Program C Ans α} {a : α} (hp : Runs exec p t a u) :
    ∃ later, Performed exec s (past ++ later) u := by
  induction hp generalizing past with
  | ret a t => exact ⟨[], by rwa [List.append_nil]⟩
  | call c k e t a u _ ih =>
    obtain ⟨later, hlater⟩ := ih (h.snoc c e)
    exact ⟨_, by rwa [List.append_assoc] at hlater⟩

/-! ## Serving requests one after another -/

/-- `Served prog exec s history t`: from `s`, the requests of `history` are served one at a time,
each answered as listed there, and leave `t`. -/
inductive Served {Q ρ : Type} (prog : Q → Program C Ans ρ) (exec : (c : C) → ε → σ → Ans c × σ)
    (s : σ) : List (Q × ρ) → σ → Prop where
  | nil : Served prog exec s [] s
  | snoc {past : List (Q × ρ)} {t u : σ} {q : Q} {r : ρ} (before : Served prog exec s past t)
      (last : Runs exec (prog q) t r u) : Served prog exec s (past ++ [(q, r)]) u

namespace Served

variable {Q ρ : Type} {prog : Q → Program C Ans ρ} {exec : (c : C) → ε → σ → Ans c × σ}
  {s t u : σ} {past later : List (Q × ρ)}

theorem nil_inv (h : Served prog exec s [] t) : t = s := by
  generalize hnil : ([] : List (Q × ρ)) = history at h
  cases h with
  | nil => rfl
  | snoc => exact absurd hnil.symm (List.append_ne_nil_of_right_ne_nil _ (List.cons_ne_nil _ _))

theorem snoc_inv {q : Q} {r : ρ} (h : Served prog exec s (past ++ [(q, r)]) u) :
    ∃ t, Served prog exec s past t ∧ Runs exec (prog q) t r u := by
  generalize hall : past ++ [(q, r)] = history at h
  cases h with
  | nil => exact absurd hall (List.append_ne_nil_of_right_ne_nil _ (List.cons_ne_nil _ _))
  | snoc before last =>
    obtain ⟨rfl, heq⟩ := List.append_inj' hall rfl
    cases heq
    exact ⟨_, before, last⟩

theorem trans (h : Served prog exec s past t) (h' : Served prog exec t later u) :
    Served prog exec s (past ++ later) u := by
  induction h' with
  | nil => rwa [List.append_nil]
  | snoc _ last ih =>
    rw [← List.append_assoc]
    exact ih.snoc last

theorem one {q : Q} {r : ρ} (h : Runs exec (prog q) s r t) : Served prog exec s [(q, r)] t :=
  (Served.nil (s := s)).snoc h

/-- Serving requests performs some calls. -/
theorem performed (h : Served prog exec s past t) : ∃ log, Performed exec s log t := by
  induction h with
  | nil => exact ⟨[], Performed.nil⟩
  | snoc _ last ih =>
    obtain ⟨log, hlog⟩ := ih
    obtain ⟨later, hlater⟩ := hlog.runs last
    exact ⟨_, hlater⟩

/-- A run on some inputs is a run on more inputs. -/
theorem mono {ε' : Type} {exec' : (c : C) → ε' → σ → Ans c × σ}
    (hexec : ∀ c e s, ∃ e', exec' c e' s = exec c e s) (h : Served prog exec s past t) :
    Served prog exec' s past t := by
  induction h with
  | nil => exact nil
  | snoc _ last ih => exact ih.snoc (last.mono hexec)

end Served

/-- One request of a run: the state it finds, the request, the answer and the state it leaves. -/
structure Turn (σ Q ρ : Type) where
  before : σ
  request : Q
  answer : ρ
  after : σ

/-- What can be seen of it from outside. -/
def Turn.exchange {Q ρ : Type} (e : Turn σ Q ρ) : Q × ρ := (e.request, e.answer)

/-- `ServedThrough prog exec s turns t`: the same with the states in between. -/
inductive ServedThrough {Q ρ : Type} (prog : Q → Program C Ans ρ)
    (exec : (c : C) → ε → σ → Ans c × σ) (s : σ) : List (Turn σ Q ρ) → σ → Prop where
  | nil : ServedThrough prog exec s [] s
  | snoc {past : List (Turn σ Q ρ)} {t u : σ} {q : Q} {r : ρ}
      (before : ServedThrough prog exec s past t) (last : Runs exec (prog q) t r u) :
      ServedThrough prog exec s (past ++ [⟨t, q, r, u⟩]) u

namespace ServedThrough

variable {Q ρ : Type} {P P' : Turn σ Q ρ → Prop} {prog : Q → Program C Ans ρ}
  {exec : (c : C) → ε → σ → Ans c × σ} {s t u : σ} {turns later : List (Turn σ Q ρ)}

theorem served (h : ServedThrough prog exec s turns t) :
    Served prog exec s (turns.map Turn.exchange) t := by
  induction h with
  | nil => exact .nil
  | snoc _ last ih =>
    rw [List.map_append]
    exact ih.snoc last

theorem trans (h : ServedThrough prog exec s turns t) (h' : ServedThrough prog exec t later u) :
    ServedThrough prog exec s (turns ++ later) u := by
  induction h' with
  | nil => rwa [List.append_nil]
  | snoc _ last ih =>
    rw [← List.append_assoc]
    exact ih.snoc last

/-- **The invariant rule for runs whose requests meet a condition.**  It holds before a request and
is preserved by one that meets the condition, so it holds after all of them. -/
theorem invariant {I : σ → Prop}
    (hstep : ∀ q r s t, I s → Runs exec (prog q) s r t → P ⟨s, q, r, t⟩ → I t) (hs : I s)
    (h : ServedThrough prog exec s turns t) (hP : ∀ e ∈ turns, P e) : I t := by
  induction h with
  | nil => exact hs
  | snoc _ last ih =>
    obtain ⟨hpast, hlast⟩ := List.forall_mem_append.mp hP
    exact hstep _ _ _ _ (ih hpast) last (List.forall_mem_singleton.mp hlast)

/-- **Two conditions that agree as long as they have been met** are met by the same runs. -/
theorem iff_of_step {I : σ → Prop}
    (hstep : ∀ q r s t, I s → Runs exec (prog q) s r t → (P ⟨s, q, r, t⟩ ↔ P' ⟨s, q, r, t⟩))
    (hinv : ∀ q r s t, I s → Runs exec (prog q) s r t → P ⟨s, q, r, t⟩ → I t) (hs : I s)
    (h : ServedThrough prog exec s turns t) : (∀ e ∈ turns, P e) ↔ ∀ e ∈ turns, P' e := by
  induction h with
  | nil => exact iff_of_true (fun _ hno => (by cases hno)) fun _ hno => (by cases hno)
  | snoc before last ih =>
    rw [List.forall_mem_append, List.forall_mem_append, List.forall_mem_singleton,
      List.forall_mem_singleton, ← ih]
    exact and_congr_right fun hpast => hstep _ _ _ _ (before.invariant hinv hs hpast) last

end ServedThrough

/-- `ServedWhere P prog exec s history t`: a run in which the input of every call satisfies `P`. -/
inductive ServedWhere {Q ρ : Type} (P : C → ε → σ → Prop) (prog : Q → Program C Ans ρ)
    (exec : (c : C) → ε → σ → Ans c × σ) (s : σ) : List (Q × ρ) → σ → Prop where
  | nil : ServedWhere P prog exec s [] s
  | snoc {past : List (Q × ρ)} {t u : σ} {q : Q} {r : ρ}
      (before : ServedWhere P prog exec s past t) (last : RunsWhere P exec (prog q) t r u) :
      ServedWhere P prog exec s (past ++ [(q, r)]) u

/-! ## Running one request at a time -/

/-- Serve requests one at a time: the answers, in order, and the final state. -/
def serve {Q ρ : Type} (prog : Q → Program C Ans ρ) (h : (c : C) → σ → Ans c × σ) :
    List Q → σ → List ρ × σ
  | [], s => ([], s)
  | q :: qs, s =>
    (((prog q).run h s).1 :: (serve prog h qs ((prog q).run h s).2).1,
      (serve prog h qs ((prog q).run h s).2).2)

section Serve

variable {Q ρ : Type} (prog : Q → Program C Ans ρ) (h : (c : C) → σ → Ans c × σ)

@[simp] theorem serve_nil (s : σ) : serve prog h [] s = ([], s) := rfl

@[simp] theorem serve_cons (q : Q) (qs : List Q) (s : σ) :
    serve prog h (q :: qs) s =
      (((prog q).run h s).1 :: (serve prog h qs ((prog q).run h s).2).1,
        (serve prog h qs ((prog q).run h s).2).2) := rfl

theorem length_serve (qs : List Q) (s : σ) : (serve prog h qs s).1.length = qs.length := by
  induction qs generalizing s with
  | nil => rfl
  | cons q qs ih => simp [ih]

/-- The same with the states in between.  It is what a witness evaluates, where the relation only
says that there is a run. -/
def serveThrough {Q ρ : Type} (prog : Q → Program C Ans ρ) (h : (c : C) → σ → Ans c × σ) :
    List Q → σ → List (Turn σ Q ρ)
  | [], _ => []
  | q :: qs, s =>
    ⟨s, q, ((prog q).run h s).1, ((prog q).run h s).2⟩ ::
      serveThrough prog h qs ((prog q).run h s).2

/-- Serving requests on the same input throughout is one way to serve them. -/
theorem servedThrough_serve (exec : (c : C) → ε → σ → Ans c × σ) (e : ε) (qs : List Q) (s : σ) :
    ServedThrough prog exec s (serveThrough prog (fun c => exec c e) qs s)
      (serve prog (fun c => exec c e) qs s).2 := by
  induction qs generalizing s with
  | nil => exact .nil
  | cons q qs ih =>
    exact (ServedThrough.nil.snoc (runs_run exec e (prog q) s)).trans (ih _)

/-- Serving requests on the same input throughout is one way to serve them. -/
theorem served_serve (exec : (c : C) → ε → σ → Ans c × σ) (e : ε) (qs : List Q) (s : σ) :
    Served prog exec s (qs.zip (serve prog (fun c => exec c e) qs s).1)
      (serve prog (fun c => exec c e) qs s).2 := by
  induction qs generalizing s with
  | nil => exact Served.nil
  | cons q qs ih => exact (Served.one (runs_run exec e (prog q) s)).trans (ih _)

theorem ServedWhere.cons {ρ Q : Type} {P : C → ε → σ → Prop} {prog : Q → Program C Ans ρ}
    {exec : (c : C) → ε → σ → Ans c × σ} {q : Q} {r : ρ} {history : List (Q × ρ)} {s t u : σ}
    (first : RunsWhere P exec (prog q) s r t) (h : ServedWhere P prog exec t history u) :
    ServedWhere P prog exec s ((q, r) :: history) u := by
  induction h with
  | nil => exact .snoc .nil first
  | snoc _ last ih => exact .snoc ih last

/-- The same for inputs that always satisfy a condition. -/
theorem servedWhere_serve {P : C → ε → σ → Prop} (exec : (c : C) → ε → σ → Ans c × σ) {e : ε}
    (hP : ∀ c s, P c e s) (qs : List Q) (s : σ) :
    ServedWhere P prog exec s (qs.zip (serve prog (fun c => exec c e) qs s).1)
      (serve prog (fun c => exec c e) qs s).2 := by
  induction qs generalizing s with
  | nil => exact .nil
  | cons q qs ih => exact .cons (runsWhere_run hP (prog q) s) (ih _)

end Serve

end Program
end MultiPlayerGame
