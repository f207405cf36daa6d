import Mathlib
import MultiPlayerGame.Library.Interleaving

/-!
# Programs that go through phases

Some programs use a shared object as they should only because of what they have done before: they
register before they count, and take back what they have taken out.  A `Protocol` says which calls
are in order in which phase, and to which phase a call leads, depending on its answer.  `Obeys` says
that a program keeps to it, whatever it is answered that the protocol allows for.

In an interleaving every request has a phase of its own.  An invariant may then relate the shared
state to the phases of all requests, those that have been answered included.  It is enough that it
survives a new request and a single call that is in order (`Reachable.phased`); the call also has to
be answered as the protocol expects, which is where the invariant is of use to the programs.

## When to use it

A statement about the shared state alone often cannot be carried through a run.  That a registry
lists exactly the connections that are open, for example, fails while a worker is between two of its
steps.  What can be carried is a relation between the registry and where all workers are.  The
phases are these places, and they are ghosts: no program has access to them.

Requests that have been answered keep their last phase.  So at the end of a run, when everything is
quiet, the relation is one between the shared state and how all requests have ended, and a sum over
phases turns into a sum over answers (`Phased.sum_answers`).

`Obeys` is checked once for each program, alone, and never along an interleaving.  Protocols can be
put side by side (`Protocol.both`), so that two results about the same programs do not have to share
their phases.
-/

namespace MultiPlayerGame

/-- Which calls are in order in a phase, and where they lead. -/
structure Protocol (C : Type) (Ans : C → Type) (φ : Type) where
  allowed : φ → C → Prop
  next : φ → (c : C) → Ans c → φ → Prop

/-- Two protocols at once, each with phases of its own. -/
def Protocol.both {C : Type} {Ans : C → Type} {φ ψ : Type} (P : Protocol C Ans φ)
    (P' : Protocol C Ans ψ) : Protocol C Ans (φ × ψ) where
  allowed s c := P.allowed s.1 c ∧ P'.allowed s.2 c
  next s c x s' := P.next s.1 c x s'.1 ∧ P'.next s.2 c x s'.2

namespace Program

variable {C : Type} {Ans : C → Type} {α β φ : Type}

/-- From this phase on the program keeps to the protocol, and `final` holds when it returns. -/
def Obeys (P : Protocol C Ans φ) (final : φ → α → Prop) : φ → Program C Ans α → Prop
  | s, .ret a => final s a
  | s, .call c k => P.allowed s c ∧ ∀ x s', P.next s c x s' → Obeys P final s' (k x)

theorem calls_of_forall {R : C → Prop} (hR : ∀ c, R c) (p : Program C Ans α) : p.Calls R := by
  induction p with
  | ret a => trivial
  | call c k ih => exact ⟨hR c, ih⟩

namespace Obeys

variable {P : Protocol C Ans φ} {final final' : φ → α → Prop} {R : φ → β → Prop} {s : φ}
  {p : Program C Ans α} {f : α → Program C Ans β}

/-- One program after another. -/
theorem bind (hp : Obeys P final s p) (hf : ∀ s a, final s a → Obeys P R s (f a)) :
    Obeys P R s (p >>= f) := by
  induction p generalizing s with
  | ret a => exact hf s a hp
  | call c k ih => exact ⟨hp.1, fun x s' hs' => ih x (hp.2 x s' hs')⟩

theorem mono (hp : Obeys P final s p) (h : ∀ s a, final s a → final' s a) :
    Obeys P final' s p := by
  induction p generalizing s with
  | ret a => exact h s a hp
  | call c k ih => exact ⟨hp.1, fun x s' hs' => ih x (hp.2 x s' hs')⟩

/-- What keeps to each of two protocols keeps to both. -/
theorem both {ψ : Type} {P' : Protocol C Ans ψ} {final' : ψ → α → Prop} {t : ψ}
    (hp : Obeys P final s p) (hp' : Obeys P' final' t p) :
    Obeys (P.both P') (fun u a => final u.1 a ∧ final' u.2 a) (s, t) p := by
  induction p generalizing s t with
  | ret a => exact ⟨hp, hp'⟩
  | call c k ih =>
    exact ⟨⟨hp.1, hp'.1⟩, fun x u hu => ih x (hp.2 x u.1 hu.1) (hp'.2 x u.2 hu.2)⟩

/-- A program whose calls all lead back to the same phase. -/
theorem of_returns {Q : α → Prop}
    (hp : p.Calls fun c => P.allowed s c ∧ ∀ x s', P.next s c x s' → s' = s) (hQ : p.Returns Q) :
    Obeys P (fun s' a => s' = s ∧ Q a) s p := by
  induction p with
  | ret a => exact ⟨rfl, hQ⟩
  | call c k ih =>
    refine ⟨hp.1.1, fun x s' hs' => ?_⟩
    rw [hp.1.2 x s' hs']
    exact ih x (hp.2 x) (hQ x)

theorem of_calls (hp : p.Calls fun c => P.allowed s c ∧ ∀ x s', P.next s c x s' → s' = s) :
    Obeys P (fun s' _ => s' = s) s p :=
  (of_returns hp (returns_of_forall (fun _ => trivial) p)).mono fun _ _ h => h.1

/-- Such a program, and then another. -/
theorem calls_bind (hp : p.Calls fun c => P.allowed s c ∧ ∀ x s', P.next s c x s' → s' = s)
    (hf : ∀ a, Obeys P R s (f a)) : Obeys P R s (p >>= f) := by
  refine (of_calls hp).bind fun s' a hs' => ?_
  rw [hs']
  exact hf a

/-- A program that shows no more than one that keeps to the protocol, if what it does not show leads
back to the same phase. -/
theorem of_shows {seen : C → Prop} {q : Program C Ans α} (h : Shows seen p q)
    (hskip : ∀ s c, ¬ seen c → P.allowed s c ∧ ∀ x s', P.next s c x s' → s' = s)
    (hq : Obeys P final s q) : Obeys P final s p := by
  induction h generalizing s with
  | ret a => exact hq
  | skip hc _ ih =>
    refine ⟨(hskip s _ hc).1, fun x s' hs' => ?_⟩
    rw [(hskip s _ hc).2 x s' hs']
    exact ih x hq
  | call _ _ ih => exact ⟨hq.1, fun x s' hs' => ih x (hq.2 x s' hs')⟩

end Obeys

end Program

namespace Interleaving

open Program

variable {C : Type} {Ans : C → Type} {Q ρ σ ε φ : Type}

/-- The phases of the requests so far. -/
structure Phased (P : Protocol C Ans φ) (final : φ → ρ → Prop) (Inv : σ → (ℕ → Option φ) → Prop)
    (x : Config C Ans Q ρ σ) (phases : ℕ → Option φ) : Prop where
  inv : Inv x.shared phases
  running : ∀ id p, x.inflight id = some p → ∃ s, phases id = some s ∧ Obeys P final s p
  answered : ∀ id r, .respond id r ∈ x.history → ∃ s, phases id = some s ∧ final s r
  begun : ∀ id, phases id ≠ none ↔ ∃ q, .invoke id q ∈ x.history

section Phased

variable {P : Protocol C Ans φ} {final : φ → ρ → Prop} {Inv : σ → (ℕ → Option φ) → Prop}
  {prog : Q → Program C Ans ρ} {exec : (c : C) → ε → σ → Ans c × σ} {s : σ}
  {x x' : Config C Ans Q ρ σ} {phases : ℕ → Option φ} {Sent : ℕ → Q → Prop} {first : Q → φ}

theorem Phased.invoke (h : Phased P final Inv x phases) {id : ℕ} {q : Q}
    (fresh : ∀ q', .invoke id q' ∉ x.history) (hprog : Obeys P final (first q) (prog q))
    (hinv : Inv x.shared (Function.update phases id (some (first q)))) :
    Phased P final Inv
      ⟨x.shared, Function.update x.inflight id (some (prog q)), x.history ++ [.invoke id q]⟩
      (Function.update phases id (some (first q))) where
  inv := hinv
  running := by
    intro i p hp
    rcases update_some_cases hp with ⟨rfl, hv⟩ | ⟨hi, hp⟩
    · cases hv
      exact ⟨first q, Function.update_self .., hprog⟩
    · obtain ⟨s, hs, hobeys⟩ := h.running i p hp
      exact ⟨s, (Function.update_of_ne hi _ _).trans hs, hobeys⟩
  answered := by
    intro i r hr
    obtain ⟨s, hs, hfinal⟩ := h.answered i r (by simpa using hr)
    have hi : i ≠ id := by
      rintro rfl
      obtain ⟨q', hq'⟩ := (h.begun i).mp (by simp [hs])
      exact fresh q' hq'
    exact ⟨s, (Function.update_of_ne hi _ _).trans hs, hfinal⟩
  begun := by
    intro i
    by_cases hi : i = id
    · subst hi
      refine iff_of_true update_self_ne_none ⟨q, ?_⟩
      exact List.mem_append_right _ (List.mem_singleton_self _)
    · rw [Function.update_of_ne hi, h.begun i]
      simp [hi]

theorem Phased.call (h : Phased P final Inv x phases) {id : ℕ} {c : C}
    {k : Ans c → Program C Ans ρ} (running : x.inflight id = some (.call c k)) (e : ε)
    (hcall : ∀ s, phases id = some s → P.allowed s c → ∃ s', P.next s c (exec c e x.shared).1 s' ∧
      Inv (exec c e x.shared).2 (Function.update phases id (some s')))
    (hdone : ∀ r, .respond id r ∉ x.history) :
    ∃ s', Phased P final Inv
      ⟨(exec c e x.shared).2, Function.update x.inflight id (some (k (exec c e x.shared).1)),
        x.history⟩ (Function.update phases id (some s')) := by
  obtain ⟨s, hs, hallowed, hrest⟩ := h.running id _ running
  obtain ⟨s', hnext, hinv⟩ := hcall s hs hallowed
  refine ⟨s', hinv, ?_, ?_, ?_⟩
  · intro i p hp
    rcases update_some_cases hp with ⟨rfl, hv⟩ | ⟨hi, hp⟩
    · cases hv
      exact ⟨s', Function.update_self .., hrest _ s' hnext⟩
    · obtain ⟨s, hs, hobeys⟩ := h.running i p hp
      exact ⟨s, (Function.update_of_ne hi _ _).trans hs, hobeys⟩
  · intro i r hr
    have hi : i ≠ id := by
      rintro rfl
      exact hdone r hr
    obtain ⟨s, hs, hfinal⟩ := h.answered i r hr
    exact ⟨s, (Function.update_of_ne hi _ _).trans hs, hfinal⟩
  · intro i
    by_cases hi : i = id
    · subst hi
      exact iff_of_true update_self_ne_none ((h.begun i).mp (by simp [hs]))
    · rw [Function.update_of_ne hi]
      exact h.begun i

theorem Phased.respond (h : Phased P final Inv x phases) {id : ℕ} {r : ρ}
    (done : x.inflight id = some (.ret r)) :
    Phased P final Inv
      ⟨x.shared, Function.update x.inflight id none, x.history ++ [.respond id r]⟩ phases where
  inv := h.inv
  running := by
    intro i p hp
    rcases update_some_cases hp with ⟨-, hv⟩ | ⟨-, hp⟩
    · cases hv
    · exact h.running i p hp
  answered := by
    intro i r' hr'
    rcases List.mem_append.mp hr' with hr' | hr'
    · exact h.answered i r' hr'
    · cases List.mem_singleton.mp hr'
      exact h.running _ _ done
  begun := by
    intro i
    rw [h.begun i]
    simp

/-- **What relates the state to the phases of all requests holds in every interleaving**, if it
survives a new request and every call that is in order.  It has to do so only where `B` holds, if
`B` never holds again once it does not. -/
theorem Reachable.phased_while {B : σ → Prop} (hback : ∀ t c e, B (exec c e t).2 → B t)
    (hprog : ∀ id q, Sent id q → Obeys P final (first q) (prog q))
    (hstart : Inv s fun _ => none)
    (hinvoke : ∀ t phases id q, Sent id q → phases id = none → Inv t phases →
      Inv t (Function.update phases id (some (first q))))
    (hcall : ∀ t phases id u c e, B t → Inv t phases → phases id = some u → P.allowed u c →
      ∃ u', P.next u c (exec c e t).1 u' ∧
        Inv (exec c e t).2 (Function.update phases id (some u')))
    (hx : Reachable prog exec s x) (hsent : ∀ id q, .invoke id q ∈ x.history → Sent id q)
    (hB : B x.shared) : ∃ phases, Phased P final Inv x phases := by
  induction hx with
  | refl =>
    refine ⟨fun _ => none, hstart, ?_, ?_, ?_⟩
    · intro id p hp
      cases hp
    · intro id r hr
      cases hr
    · intro id
      exact iff_of_false (fun h => h rfl) fun ⟨q, hq⟩ => by cases hq
  | tail hbefore hstep ih =>
    cases hstep with
    | invoke id q fresh =>
      obtain ⟨phases, h⟩ := ih (fun i q' hq' => hsent i q' (List.mem_append_left _ hq')) hB
      have hq := hsent id q (List.mem_append_right _ (List.mem_singleton_self _))
      have hnone : phases id = none := by
        by_contra hsome
        obtain ⟨q', hq'⟩ := (h.begun id).mp hsome
        exact fresh q' hq'
      exact ⟨_, h.invoke fresh (hprog id q hq) (hinvoke _ _ _ _ hq hnone h.inv)⟩
    | call id c k e running =>
      have hbase := hback _ _ _ hB
      obtain ⟨phases, h⟩ := ih hsent hbase
      obtain ⟨s', h'⟩ := h.call running e (fun u hu hc => hcall _ _ _ _ _ e hbase h.inv hu hc)
        fun r hr => by cases running.symm.trans (Reachable.done_of_answered hbefore hr)
      exact ⟨_, h'⟩
    | respond id r done =>
      obtain ⟨phases, h⟩ := ih (fun i q' hq' => hsent i q' (List.mem_append_left _ hq')) hB
      exact ⟨phases, h.respond done⟩

/-- The same without such a condition. -/
theorem Reachable.phased (hprog : ∀ id q, Sent id q → Obeys P final (first q) (prog q))
    (hstart : Inv s fun _ => none)
    (hinvoke : ∀ t phases id q, Sent id q → phases id = none → Inv t phases →
      Inv t (Function.update phases id (some (first q))))
    (hcall : ∀ t phases id u c e, Inv t phases → phases id = some u → P.allowed u c →
      ∃ u', P.next u c (exec c e t).1 u' ∧
        Inv (exec c e t).2 (Function.update phases id (some u')))
    (hx : Reachable prog exec s x) (hsent : ∀ id q, .invoke id q ∈ x.history → Sent id q) :
    ∃ phases, Phased P final Inv x phases :=
  Reachable.phased_while (B := fun _ => True) (fun _ _ _ _ => trivial) hprog hstart hinvoke
    (fun t phases id u c e _ => hcall t phases id u c e) hx hsent trivial

end Phased

/-! ## Sums over all requests -/

/-- `n` is the sum of `f` over the phases of all requests. -/
def Sums (phases : ℕ → Option φ) (f : φ → ℕ) (n : ℕ) : Prop :=
  ∃ ids : Finset ℕ, (∀ i, i ∈ ids ↔ phases i ≠ none) ∧ n = ∑ i ∈ ids, (phases i).elim 0 f

section Sums

variable {phases : ℕ → Option φ} {f : φ → ℕ} {n n' i : ℕ} {s s' : φ}

theorem sums_nothing : Sums (fun _ => none) f 0 :=
  ⟨∅, fun i => by simp, rfl⟩

/-- Whatever set contains the requests. -/
theorem Sums.eq_sum (h : Sums phases f n) {ids : Finset ℕ} (hids : ∀ i, i ∈ ids ↔ phases i ≠ none) :
    n = ∑ i ∈ ids, (phases i).elim 0 f := by
  obtain ⟨ids', hids', rfl⟩ := h
  have hsame : ids = ids' := by
    ext i
    rw [hids, hids']
  rw [hsame]

/-- A new request. -/
theorem Sums.invoke (h : Sums phases f n) (hi : phases i = none) :
    Sums (Function.update phases i (some s)) f (n + f s) := by
  obtain ⟨ids, hids, rfl⟩ := h
  have hnot : i ∉ ids := fun hmem => (hids i).mp hmem hi
  refine ⟨insert i ids, fun j => ?_, ?_⟩
  · by_cases hj : j = i
    · simp [hj]
    · simp [hj, hids]
  · rw [Finset.sum_insert hnot, Function.update_self, Option.elim_some, Nat.add_comm]
    refine congrArg _ (Finset.sum_congr rfl fun j hj => ?_)
    have hne : j ≠ i := by
      rintro rfl
      exact hnot hj
    rw [Function.update_of_ne hne]

/-- A request that changes its phase. -/
theorem Sums.call (h : Sums phases f n) (hi : phases i = some s) (hn : n' + f s = n + f s') :
    Sums (Function.update phases i (some s')) f n' := by
  obtain ⟨ids, hids, rfl⟩ := h
  have hmem : i ∈ ids := (hids i).mpr (by simp [hi])
  refine ⟨ids, fun j => ?_, ?_⟩
  · by_cases hj : j = i
    · simp [hj, hmem]
    · simp [hj, hids]
  · rw [← Finset.add_sum_erase _ _ hmem] at hn ⊢
    rw [Function.update_self, Option.elim_some]
    rw [hi, Option.elim_some] at hn
    have hrest : ∑ j ∈ ids.erase i, (Function.update phases i (some s') j).elim 0 f =
        ∑ j ∈ ids.erase i, (phases j).elim 0 f :=
      Finset.sum_congr rfl fun j hj => by rw [Function.update_of_ne (Finset.ne_of_mem_erase hj)]
    omega

/-- A request that changes its phase, but not its part. -/
theorem Sums.same (h : Sums phases f n) (hi : phases i = some s) (hs : f s' = f s) :
    Sums (Function.update phases i (some s')) f n :=
  h.call hi (by rw [hs])

theorem Sums.le_of_le {g : φ → ℕ} {m : ℕ} (h : Sums phases f n) (h' : Sums phases g m)
    (hle : ∀ s, f s ≤ g s) : n ≤ m := by
  obtain ⟨ids, hids, rfl⟩ := h
  rw [h'.eq_sum hids]
  refine Finset.sum_le_sum fun i _ => ?_
  cases phases i with
  | none => exact Nat.le_refl 0
  | some s => exact hle s

end Sums

/-! ## Sums over all answers -/

/-- The answers so far, with the names of the requests. -/
def answersOf (history : List (Event Q ρ)) : List (ℕ × ρ) :=
  history.filterMap fun
    | .invoke _ _ => none
    | .respond id r => some (id, r)

theorem mem_answersOf {history : List (Event Q ρ)} {id : ℕ} {r : ρ} :
    (id, r) ∈ answersOf history ↔ .respond id r ∈ history := by
  rw [answersOf, List.mem_filterMap]
  constructor
  · rintro ⟨ev, hev, heq⟩
    cases ev with
    | invoke => cases heq
    | respond =>
      cases heq
      exact hev
  · exact fun h => ⟨_, h, rfl⟩

section Answers

variable {P : Protocol C Ans φ} {final : φ → ρ → Prop} {Inv : σ → (ℕ → Option φ) → Prop}
  {prog : Q → Program C Ans ρ} {exec : (c : C) → ε → σ → Ans c × σ} {s : σ}
  {x : Config C Ans Q ρ σ} {phases : ℕ → Option φ}

/-- No request is answered twice. -/
theorem Reachable.nodup_answersOf (hx : Reachable prog exec s x) :
    ((answersOf x.history).map Prod.fst).Nodup := by
  induction hx with
  | refl => exact List.nodup_nil
  | tail hbefore hstep ih =>
    cases hstep with
    | invoke id q _ =>
      rw [answersOf, List.filterMap_append]
      exact (List.append_nil _).symm ▸ ih
    | call => exact ih
    | respond id r done =>
      rw [answersOf, List.filterMap_append, List.map_append, List.nodup_append]
      refine ⟨ih, List.nodup_singleton id, fun i hi j hj => ?_⟩
      cases List.mem_singleton.mp hj
      rintro rfl
      obtain ⟨⟨_, r'⟩, hr', rfl⟩ := List.mem_map.mp hi
      cases done.symm.trans (Reachable.done_of_answered hbefore (mem_answersOf.mp hr'))

/-- **When everything is quiet, a sum over the phases is a sum over the answers.**  Every request
has been answered then, and its last phase is known from its answer. -/
theorem Phased.sum_answers (h : Phased P final Inv x phases) (hx : Reachable prog exec s x)
    (hquiet : x.Quiet) {f : φ → ℕ} {g : ρ → ℕ} {n : ℕ} (hn : Sums phases f n)
    (hfinal : ∀ s r, final s r → f s = g r) :
    n = ((answersOf x.history).map fun e => g e.2).sum := by
  have hids : ∀ i, i ∈ ((answersOf x.history).map Prod.fst).toFinset ↔ phases i ≠ none := by
    intro i
    rw [List.mem_toFinset, List.mem_map, h.begun i]
    constructor
    · rintro ⟨⟨_, r⟩, hr, rfl⟩
      obtain ⟨s, hs, -⟩ := h.answered _ r (mem_answersOf.mp hr)
      exact (h.begun _).mp (by simp [hs])
    · rintro ⟨q, hq⟩
      obtain ⟨r, hr⟩ := hx.answered_of_done hq (hquiet i)
      exact ⟨(i, r), mem_answersOf.mpr hr, rfl⟩
  rw [hn.eq_sum hids, List.sum_toFinset _ hx.nodup_answersOf, List.map_map]
  refine congrArg List.sum (List.map_congr_left fun e he => ?_)
  obtain ⟨s, hs, hr⟩ := h.answered e.1 e.2 (mem_answersOf.mp he)
  rw [Function.comp_apply, hs, Option.elim_some, hfinal s e.2 hr]

end Answers

end Interleaving
end MultiPlayerGame
