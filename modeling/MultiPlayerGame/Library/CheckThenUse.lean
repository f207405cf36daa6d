import MultiPlayerGame.Library.Interleaving

/-!
# Checking a fact and using it later

A request checks a fact about the shared state in one call and relies on it in a later one.  Each
call is indivisible, the two together are not, so another request may make the fact false between
them.

`Checks` says of a program that it relies on the fact only after a call that has found it true.
Whether what it returns is right then depends on the other requests alone: `answered_of_kept` is the
rule that it is, if no call makes a fact false while some request is between its check and its use.

## How the rule is used

It takes three things.  An outline of the program, which is `Checks`, by recursion on the program
and without any run: before the check nothing is relied upon, and after it the answers may be
assumed to be those that the fact allows.  A fact `Good` about the shared state that the check
establishes.  And that in the runs considered no call makes the fact false while somebody relies on
it (`Between`).

The third one is a condition on runs and not on the program.  It can be discharged if the other
programs never falsify the fact, or kept as the exact description of the runs in which the answer is
right.
-/

namespace MultiPlayerGame

namespace Program

variable {C : Type} {Ans : C → Type} {α β : Type}

/-- What the program returns satisfies `R`, provided that its calls are answered as `Good` says. -/
def ReturnsIf (Good : (c : C) → Ans c → Prop) (R : α → Prop) : Program C Ans α → Prop
  | ret a => R a
  | call c k => ∀ x, Good c x → (k x).ReturnsIf Good R

/-- The program relies on good answers only after it has made the call `check`, and this has been
answered as `Passed` says. -/
def Checks (check : C) (Passed Good : (c : C) → Ans c → Prop) (R : α → Prop) :
    Program C Ans α → Prop
  | ret a => R a
  | call c k => ∀ x, (Passed c x → (k x).Calls (· ≠ check) ∧ (k x).ReturnsIf Good R) ∧
      (¬ Passed c x → (k x).Checks check Passed Good R)

/-- The call `check` is behind the program, and the call `use` may be ahead of it. -/
def Between (check use : C) (p : Program C Ans α) : Prop :=
  p.Calls (· ≠ check) ∧ ¬ p.Calls (· ≠ use)

section Checks

variable {check use : C} {Passed Good : (c : C) → Ans c → Prop} {Q : α → Prop} {R : β → Prop}

theorem Returns.returnsIf {p : Program C Ans β} (hp : p.Returns R) : p.ReturnsIf Good R := by
  induction p with
  | ret a => exact hp
  | call c k ih => exact fun x _ => ih x (hp x)

theorem ReturnsIf.bind {p : Program C Ans α} {f : α → Program C Ans β} (hp : p.ReturnsIf Good Q)
    (hf : ∀ a, Q a → (f a).ReturnsIf Good R) : (p >>= f).ReturnsIf Good R := by
  induction p with
  | ret a => exact hf a hp
  | call c k ih => exact fun x hx => ih x (hp x hx)

/-- Without the call `use`, all answers are good. -/
theorem ReturnsIf.returns (huse : ∀ c x, c ≠ use → Good c x) {p : Program C Ans β}
    (hp : p.ReturnsIf Good R) (hcalls : p.Calls (· ≠ use)) : p.Returns R := by
  induction p with
  | ret a => exact hp
  | call c k ih => exact fun x => ih x (hp x (huse c x hcalls.1)) (hcalls.2 x)

/-- A program that is right anyway. -/
theorem Returns.checks {p : Program C Ans β} (hp : p.Returns R) (hcalls : p.Calls (· ≠ check)) :
    p.Checks check Passed Good R := by
  induction p with
  | ret a => exact hp
  | call c k ih =>
    exact fun x => ⟨fun _ => ⟨hcalls.2 x, (hp x).returnsIf⟩, fun _ => ih x (hp x) (hcalls.2 x)⟩

theorem Checks.bind {p : Program C Ans α} {f : α → Program C Ans β}
    (hp : p.Checks check Passed Good Q) (hcalls : ∀ a, (f a).Calls (· ≠ check))
    (hf : ∀ a, Q a → (f a).Returns R) : (p >>= f).Checks check Passed Good R := by
  induction p with
  | ret a => exact (hf a hp).checks (hcalls a)
  | call c k ih =>
    refine fun x => ⟨fun hx => ?_, fun hx => ih x ((hp x).2 hx)⟩
    obtain ⟨hno, hreturns⟩ := (hp x).1 hx
    exact ⟨hno.bind hcalls, hreturns.bind fun a ha => (hf a ha).returnsIf⟩

end Checks

end Program

namespace Interleaving

open Program

variable {C : Type} {Ans : C → Type} {Q ρ σ ε F : Type}

/-- A request that is concerned with the fact is between checking it and using it. -/
def Pending (K : Q → F → Prop) (check : F → C) (use : C) (x : Config C Ans Q ρ σ) (f : F) : Prop :=
  ∃ id q p, .invoke id q ∈ x.history ∧ K q f ∧ x.inflight id = some p ∧ Between (check f) use p

section Rule

variable {prog : Q → Program C Ans ρ} {exec : (c : C) → ε → σ → Ans c × σ} {s : σ}
  {P : Config C Ans Q ρ σ → ℕ → C → Prop} {K : Q → F → Prop} {check : F → C} {use : C}
  {Passed Good : F → (c : C) → Ans c → Prop} {R : F → ρ → Prop} {Holds : F → σ → Prop}
  {Inv : σ → Prop}

/-- How far a request has come that is concerned with the fact: it has yet to check it; it has found
it true, and it still is; or the answer no longer depends on it. -/
def Progressed (check : F → C) (Passed Good : F → (c : C) → Ans c → Prop) (R : F → ρ → Prop)
    (Holds : F → σ → Prop) (f : F) (t : σ) (p : Program C Ans ρ) : Prop :=
  p.Checks (check f) (Passed f) (Good f) (R f) ∨
    (Holds f t ∧ p.Calls (· ≠ check f) ∧ p.ReturnsIf (Good f) (R f)) ∨ p.Returns (R f)

/-- What holds of the requests sent so far.  Each has come as far as `Progressed` says. -/
structure Reliable (K : Q → F → Prop) (check : F → C) (Passed Good : F → (c : C) → Ans c → Prop)
    (R : F → ρ → Prop) (Holds : F → σ → Prop) (x : Config C Ans Q ρ σ) : Prop where
  running : ∀ id q f p, K q f → .invoke id q ∈ x.history → x.inflight id = some p →
    Progressed check Passed Good R Holds f x.shared p
  answered : ∀ id q f r, K q f → .invoke id q ∈ x.history → .respond id r ∈ x.history → R f r

/-- **One call**, by the request itself.  If it is the check and the check passes, the fact holds
from here on as long as nobody falsifies it. -/
theorem Progressed.own {f : F} {t : σ} {c : C} {k : Ans c → Program C Ans ρ}
    (hpass : ∀ c e, Passed f c (exec c e t).1 → Holds f (exec c e t).2)
    (hgood : ∀ c e, Holds f t → Good f c (exec c e t).1) (e : ε)
    (hkeep : Between (check f) use (.call c k) → Holds f t → Holds f (exec c e t).2)
    (huse : ∀ c x, c ≠ use → Good f c x)
    (h : Progressed check Passed Good R Holds f t (.call c k)) :
    Progressed check Passed Good R Holds f (exec c e t).2 (k (exec c e t).1) := by
  rcases h with hchecks | ⟨hholds, hcalls, hreturns⟩ | hreturns
  · by_cases hpassed : Passed f c (exec c e t).1
    · obtain ⟨hno, hreturns⟩ := (hchecks _).1 hpassed
      exact Or.inr (Or.inl ⟨hpass c e hpassed, hno, hreturns⟩)
    · exact Or.inl ((hchecks _).2 hpassed)
  · have hrest := hreturns _ (hgood c e hholds)
    by_cases hahead : (Program.call c k).Calls (· ≠ use)
    · exact Or.inr (Or.inr (hrest.returns huse (hahead.2 _)))
    · exact Or.inr (Or.inl ⟨hkeep ⟨hcalls, hahead⟩ hholds, hcalls.2 _, hrest⟩)
  · exact Or.inr (Or.inr (hreturns _))

/-- **One call**, by another request.  It leaves the request where it is, and the fact true by the
condition on the run. -/
theorem Progressed.other {f : F} {t t' : σ} {p : Program C Ans ρ}
    (hkeep : Between (check f) use p → Holds f t → Holds f t')
    (huse : ∀ c x, c ≠ use → Good f c x) (h : Progressed check Passed Good R Holds f t p) :
    Progressed check Passed Good R Holds f t' p := by
  rcases h with hchecks | ⟨hholds, hcalls, hreturns⟩ | hreturns
  · exact Or.inl hchecks
  · by_cases hahead : p.Calls (· ≠ use)
    · exact Or.inr (Or.inr (hreturns.returns huse hahead))
    · exact Or.inr (Or.inl ⟨hkeep ⟨hcalls, hahead⟩ hholds, hcalls, hreturns⟩)
  · exact Or.inr (Or.inr hreturns)

section Steps

variable (hprog : ∀ q f, K q f → (prog q).Checks (check f) (Passed f) (Good f) (R f))
  (hpass : ∀ f c e t, Inv t → Passed f c (exec c e t).1 → Holds f (exec c e t).2)
  (hgood : ∀ f c e t, Inv t → Holds f t → Good f c (exec c e t).1)
  (huse : ∀ f c x, c ≠ use → Good f c x)
  (hkeep : ∀ x id c e, P x id c → Inv x.shared → ∀ f, Pending K check use x f →
    Holds f x.shared → Holds f (exec c e x.shared).2)

include hprog hpass hgood huse hkeep in
theorem Reliable.step {x y : Config C Ans Q ρ σ} (hx : Reachable prog exec s x)
    (hinv : Inv x.shared) (hstep : StepWhere P prog exec x y)
    (h : Reliable K check Passed Good R Holds x) :
    Reliable K check Passed Good R Holds y := by
  cases hstep with
  | invoke id q fresh =>
    refine ⟨fun i q' f p hK hq' hp => ?_, fun i q' f r hK hq' hr => ?_⟩
    · rcases List.mem_append.mp hq' with hq' | hq'
      · have hi : i ≠ id := fun heq => fresh q' (heq ▸ hq')
        exact h.running i q' f p hK hq' ((Function.update_of_ne hi _ _).symm.trans hp)
      · cases List.mem_singleton.mp hq'
        cases (Function.update_self ..).symm.trans hp
        exact Or.inl (hprog q f hK)
    · have hr' : .respond i r ∈ x.history := by simpa using hr
      rcases List.mem_append.mp hq' with hq' | hq'
      · exact h.answered i q' f r hK hq' hr'
      · cases List.mem_singleton.mp hq'
        obtain ⟨q'', hq''⟩ := hx.invoked_of_respond hr'
        exact absurd hq'' (fresh q'')
  | call id c k e hrun holds =>
    refine ⟨fun i q f p hK hq hp => ?_, h.answered⟩
    rcases update_some_cases hp with ⟨rfl, hv⟩ | ⟨-, hp⟩
    · cases hv
      exact (h.running i q f _ hK hq hrun).own (fun c e => hpass f c e _ hinv)
        (fun c e => hgood f c e _ hinv) e
        (fun hbetween => hkeep x i c e holds hinv f ⟨i, q, _, hq, hK, hrun, hbetween⟩) (huse f)
    · exact (h.running i q f p hK hq hp).other
        (fun hbetween => hkeep x id c e holds hinv f ⟨i, q, p, hq, hK, hp, hbetween⟩) (huse f)
  | respond id r done =>
    refine ⟨fun i q f p hK hq hp => ?_, fun i q f r' hK hq hr => ?_⟩
    · have hq' : .invoke i q ∈ x.history := by simpa using hq
      rcases update_some_cases hp with ⟨-, hv⟩ | ⟨-, hp⟩
      · cases hv
      · exact h.running i q f p hK hq' hp
    · have hq' : .invoke i q ∈ x.history := by simpa using hq
      rcases List.mem_append.mp hr with hr | hr
      · exact h.answered i q f r' hK hq' hr
      · cases List.mem_singleton.mp hr
        rcases h.running _ q f _ hK hq' done with hret | ⟨-, -, hret⟩ | hret
        · exact hret
        · exact hret
        · exact hret

include hprog hpass hgood huse hkeep in
/-- **The rule.**  If every call leaves those facts true on which a request still relies, then every
request has been answered rightly. -/
theorem answered_of_kept (hinv : ∀ x, Reachable prog exec s x → Inv x.shared)
    {x : Config C Ans Q ρ σ} (hx : ReachableWhere P prog exec s x) {id : ℕ} {q : Q} {f : F} {r : ρ}
    (hK : K q f) (hq : .invoke id q ∈ x.history) (hr : .respond id r ∈ x.history) : R f r := by
  suffices h : Reliable K check Passed Good R Holds x from h.answered id q f r hK hq hr
  clear hq hr
  induction hx with
  | refl => exact ⟨fun _ _ _ _ _ hmem => (by cases hmem), fun _ _ _ _ _ hmem => (by cases hmem)⟩
  | tail hbefore hstep ih =>
    have hreach := ReachableWhere.reachable hbefore
    exact ih.step hprog hpass hgood huse hkeep hreach (hinv _ hreach) hstep

end Steps

end Rule

end Interleaving
end MultiPlayerGame
