import MultiPlayerGame.Library.Abstraction
import Mathlib.Data.Set.Operations
import Mathlib.Data.Set.Image

/-!
# Answers that tell more than the abstraction

`Interleaving.Reachable.linearization` needs an abstraction of the state that settles the answers.
A program may answer more than that: a reader that returns a log next to the state that is looked
at.  `Reachable.linearizationUpTo` allows this.  The requests are put in an order with their real
answers, and served one at a time in that order they get answers in which `out` sees no difference.

The proof lets the rest of the state come from outside, anew at each call (`execOn`).  The
interleavings of the programs are interleavings of the same programs over the abstraction alone,
where there is nothing left that an answer could depend on.
-/

namespace MultiPlayerGame
namespace Program

section Unseen

variable {C : Type} {Ans : C → Type} {α σ τ ε : Type} {exec : (c : C) → ε → σ → Ans c × σ}
  {seen : C → Prop} {p : Program C Ans α}

/-- If unseen calls change nothing, a run is a run of what is shown. -/
theorem Shows.runs (hskip : ∀ c e s, ¬ seen c → (exec c e s).2 = s) {q : Program C Ans α}
    (hp : Shows seen p q) {s t : σ} {a : α} (h : Runs exec p s a t) : Runs exec q s a t := by
  induction hp generalizing s with
  | ret => exact h
  | skip hc _ ih =>
    obtain ⟨e, h⟩ := runs_call.mp h
    rw [hskip _ e s hc] at h
    exact ih _ h
  | call _ _ ih =>
    obtain ⟨e, h⟩ := runs_call.mp h
    exact runs_call.mpr ⟨e, ih _ h⟩

variable [Nonempty ε] {abs : σ → τ} (hskip : ∀ c e s, ¬ seen c → abs (exec c e s).2 = abs s)

include hskip

/-- A program that shows no call can be run anywhere. -/
theorem Shows.runs_ret {r : α} (hp : Shows seen p (.ret r)) (s : σ) :
    ∃ t, Runs exec p s r t ∧ abs t = abs s := by
  generalize hq : (.ret r : Program C Ans α) = q at hp
  induction hp generalizing s with
  | ret a =>
    cases hq
    exact ⟨s, Runs.ret r s, rfl⟩
  | skip hc _ ih =>
    obtain ⟨e⟩ := ‹Nonempty ε›
    obtain ⟨t, hrest, ht⟩ := ih (exec _ e s).1 (exec _ e s).2 hq
    exact ⟨t, runs_call.mpr ⟨e, hrest⟩, ht.trans (hskip _ e s hc)⟩
  | call => cases hq

/-- A program that shows one call makes it in a state that looks like the one it is run from. -/
theorem Shows.runs_call {c : C} {f : Ans c → α}
    (hp : Shows seen p (.call c fun x => .ret (f x))) (e : ε) (s : σ) :
    ∃ u t, abs u = abs s ∧ Runs exec p s (f (exec c e u).1) t ∧
      abs t = abs (exec c e u).2 := by
  generalize hq : (.call c fun x => .ret (f x) : Program C Ans α) = q at hp
  induction hp generalizing s with
  | ret => cases hq
  | skip hc' _ ih =>
    obtain ⟨e'⟩ := ‹Nonempty ε›
    obtain ⟨u, t, hu, hrest, ht⟩ := ih (exec _ e' s).1 (exec _ e' s).2 hq
    exact ⟨u, t, hu.trans (hskip _ e' s hc'), Program.runs_call.mpr ⟨e', hrest⟩, ht⟩
  | call _ hk =>
    cases hq
    obtain ⟨t, hrest, ht⟩ := Shows.runs_ret hskip (hk (exec c e s).1) (exec c e s).2
    exact ⟨s, t, rfl, Program.runs_call.mpr ⟨e, hrest⟩, ht⟩

end Unseen

/-- Calls that are seen as they are. -/
theorem Abstracts.refl {C : Type} {Ans : C → Type} {α : Type} (p : Program C Ans α) :
    Abstracts (fun c => some ⟨c, id⟩) id p p := by
  induction p with
  | ret a => exact .ret a
  | call c k ih => exact .call rfl ih

end Program

namespace Interleaving

open Program (View Abstracts Shows Runs Served)

variable {C : Type} {Ans : C → Type} {Q ρ ρ' σ τ ε : Type}

/-! ## Answers that tell more than the abstraction -/

theorem Before.map {Q' ρ' : Type} {history : List (Event Q ρ)} {i j : ℕ}
    (h : Before history i j) (ask : Q → Q') (out : ρ → ρ') :
    Before (history.map (Event.map ask out)) i j := by
  obtain ⟨past, future, rfl, ⟨r, hr⟩, q, hq⟩ := h
  exact ⟨past.map _, future.map _, List.map_append, ⟨out r, List.mem_map.mpr ⟨_, hr, rfl⟩⟩,
    ask q, List.mem_map.mpr ⟨_, hq, rfl⟩⟩

/-- A program that shows no call, only its result, or one call, where the abstraction settles what
the call does to it and what `out` sees of the result. -/
def AtomicUpTo (out : ρ → ρ') (exec : (c : C) → ε → σ → Ans c × σ) (abs : σ → τ) (seen : C → Prop)
    (p : Program C Ans ρ) : Prop :=
  (∃ r, Shows seen p (.ret r)) ∨
    ∃ (c : C) (f : Ans c → ρ), seen c ∧ Shows seen p (.call c fun x => .ret (f x)) ∧
      ∀ e s t, abs s = abs t → out (f (exec c e s).1) = out (f (exec c e t).1) ∧
        abs (exec c e s).2 = abs (exec c e t).2

/-- `order` is a linearization, but served one at a time the requests are given the answers it lists
only as far as `out` can see. -/
structure IsLinearizationUpTo (out : ρ → ρ') (prog : Q → Program C Ans ρ) (K : Q → Prop)
    (exec : (c : C) → ε → σ → Ans c × σ) (s : σ) (abs : σ → τ) (x : Config C Ans Q ρ σ)
    (order : List (Entry Q ρ)) : Prop where
  nodup : (order.map Entry.id).Nodup
  complete : ∀ id q r, .invoke id q ∈ x.history → .respond id r ∈ x.history → K q →
    ⟨id, q, r⟩ ∈ order
  sound : ∀ a ∈ order, K a.request ∧ .invoke a.id a.request ∈ x.history ∧
    (.respond a.id a.answer ∈ x.history ∨ x.inflight a.id ≠ none)
  realTime : order.Pairwise fun a b => ¬ Before x.history b.id a.id
  served : ∃ l t, Served prog exec s l t ∧
    l.map (fun a => (a.1, out a.2)) = order.map (fun a => (a.request, out a.answer)) ∧
      abs t = abs x.shared

section UpTo

variable {prog : Q → Program C Ans ρ} {exec : (c : C) → ε → σ → Ans c × σ} {K : Q → Prop}
  {seen silent : C → Prop} {abs : σ → τ} {out : ρ → ρ'} {s : σ} {x : Config C Ans Q ρ σ}
  {order : List (Entry Q ρ)}

/-- A state with a given abstraction: the one that is offered, if it has it. -/
noncomputable def fitting (abs : σ → τ) (k : Set.range abs) (u : σ) : σ :=
  open Classical in if abs u = k then u else k.2.choose

theorem abs_fitting (k : Set.range abs) (u : σ) : abs (fitting abs k u) = k := by
  unfold fitting
  split
  · assumption
  · exact k.2.choose_spec

theorem fitting_self (u : σ) : fitting abs (Set.rangeFactorization abs u) u = u := if_pos rfl

/-- What the calls do to the abstraction if the rest of the state comes from outside. -/
noncomputable def execOn (exec : (c : C) → ε → σ → Ans c × σ) (abs : σ → τ) (c : C) (e : ε × σ)
    (k : Set.range abs) : Ans c × Set.range abs :=
  let r := exec c e.1 (fitting abs k e.2)
  (r.1, Set.rangeFactorization abs r.2)

theorem refines_execOn : Refines (fun c => some ⟨c, id⟩) (Set.rangeFactorization abs) exec
    (execOn exec abs) where
  unseen := fun _ _ _ hc => by cases hc
  seen := by
    intro c e s c' g hc
    cases hc
    refine ⟨(e, s), ?_⟩
    rw [execOn, fitting_self]
    rfl

theorem execOn_unchanged {c : C} (hc : ∀ e s, abs (exec c e s).2 = abs s) (e : ε × σ)
    (k : Set.range abs) : (execOn exec abs c e k).2 = k :=
  Subtype.ext ((hc e.1 _).trans (abs_fitting k e.2))

/-- What a program does to the abstraction, it can do from any state with that abstraction. -/
theorem AtomicUpTo.lift [Nonempty ε] (hskip : ∀ c e s, ¬ seen c → abs (exec c e s).2 = abs s)
    {p : Program C Ans ρ} (hp : AtomicUpTo out exec abs seen p) {k k' : Set.range abs} {r : ρ}
    (hruns : Runs (execOn exec abs) p k r k') {u : σ} (hu : abs u = k) :
    ∃ r' t, Runs exec p u r' t ∧ out r' = out r ∧ abs t = k' := by
  have hunseen : ∀ c e k, ¬ seen c → (execOn exec abs c e k).2 = k := fun c e k hc =>
    execOn_unchanged (fun e s => hskip c e s hc) e k
  rcases hp with ⟨r₀, hshows⟩ | ⟨c, f, -, hshows, hcall⟩
  · obtain ⟨rfl, rfl⟩ := Program.runs_ret.mp (hshows.runs hunseen hruns)
    obtain ⟨t, hrun, ht⟩ := hshows.runs_ret hskip u
    exact ⟨r, t, hrun, rfl, ht.trans hu⟩
  · obtain ⟨e, hrest⟩ := Program.runs_call.mp (hshows.runs hunseen hruns)
    obtain ⟨rfl, rfl⟩ := Program.runs_ret.mp hrest
    obtain ⟨v, t, hv, hrun, ht⟩ := hshows.runs_call hskip e.1 u
    have hsame : abs v = abs (fitting abs k e.2) :=
      (hv.trans hu).trans (abs_fitting k e.2).symm
    obtain ⟨hout, habs⟩ := hcall e.1 v _ hsame
    exact ⟨_, t, hrun, hout, ht.trans habs⟩

/-- The same for requests served one after another. -/
theorem served_lift [Nonempty ε] (hskip : ∀ c e s, ¬ seen c → abs (exec c e s).2 = abs s)
    (hK : ∀ q, K q → AtomicUpTo out exec abs seen (prog q)) {l : List (Q × ρ)}
    {k : Set.range abs} (hl : ∀ a ∈ l, K a.1)
    (h : Served prog (execOn exec abs) (Set.rangeFactorization abs s) l k) :
    ∃ l' t, Served prog exec s l' t ∧
      l'.map (fun a => (a.1, out a.2)) = l.map (fun a => (a.1, out a.2)) ∧ abs t = k := by
  induction h with
  | nil => exact ⟨[], s, .nil, rfl, rfl⟩
  | snoc _ hlast ih =>
    obtain ⟨l', t, hserved, hsame, ht⟩ := ih fun a ha => hl a (List.mem_append_left _ ha)
    have hq := hl _ (List.mem_append_right _ (List.mem_singleton_self _))
    obtain ⟨r', u, hruns, hout, hu⟩ := (hK _ hq).lift hskip hlast ht
    refine ⟨l' ++ [(_, r')], u, hserved.snoc hruns, ?_, hu⟩
    rw [List.map_append, List.map_append, hsame, List.map_singleton, List.map_singleton, hout]

/-- **Linearizability with answers that tell more than the abstraction.**  What they tell beyond it
is left out of the comparison with the answers the requests are given one at a time. -/
theorem Reachable.linearizationUpTo [Nonempty ε]
    (hK : ∀ q, K q → AtomicUpTo out exec abs seen (prog q))
    (hnK : ∀ q, ¬ K q → (prog q).Calls silent)
    (hsilent : ∀ c e s, silent c → abs (exec c e s).2 = abs s)
    (hskip : ∀ c e s, ¬ seen c → abs (exec c e s).2 = abs s) (hx : Reachable prog exec s x) :
    ∃ order, IsLinearizationUpTo out prog K exec s abs x order := by
  -- the rest of the state may be anything at each call: then nothing but the abstraction counts
  have hseen : ∃ y, Reachable prog (execOn exec abs) (Set.rangeFactorization abs s) y ∧
      Abstracted (fun c => some ⟨c, id⟩) id id (Set.rangeFactorization abs) x y :=
    Reachable.abstracts refines_execOn (fun q => Program.Abstracts.refl _) hx
  obtain ⟨y, hy, hshared, hhistory, hinflight⟩ := hseen
  have hatomic : ∀ q, K q → Atomic seen (prog q) := fun q hq =>
    (hK q hq).imp_right fun ⟨c, f, hc, hshows, _⟩ => ⟨c, f, hc, hshows⟩
  have : Nonempty (ε × σ) := ‹Nonempty ε›.map fun e => (e, s)
  have hlinear : ∃ order, IsLinearization prog K (execOn exec abs)
      (Set.rangeFactorization abs s) id y order := by
    refine hy.linearization hatomic hnK
      (fun c e k hc => execOn_unchanged (fun e s => hsilent c e s hc) e k)
      (fun c e k hc => execOn_unchanged (fun e s => hskip c e s hc) e k) ?_
    intro c e k k' _ hkk'
    cases hkk'
    exact ⟨rfl, rfl⟩
  obtain ⟨order, hlin⟩ := hlinear
  have hsame : y.history = x.history := by
    rw [hhistory]
    refine (List.map_congr_left fun ev _ => ?_).trans (List.map_id _)
    cases ev <;> rfl
  refine ⟨order, hlin.nodup, ?_, ?_, ?_, ?_⟩
  · intro id q r hq hr
    exact hlin.complete id q r (hsame ▸ hq) (hsame ▸ hr)
  · intro a ha
    obtain ⟨hKa, hinv, hdone⟩ := hlin.sound a ha
    rw [hsame] at hinv hdone
    refine ⟨hKa, hinv, hdone.imp_right fun hne hnone => hne ?_⟩
    have hrel := hinflight a.id
    rw [hnone] at hrel
    generalize y.inflight a.id = p at hrel
    cases hrel
    rfl
  · rw [← hsame]
    exact hlin.realTime
  · obtain ⟨k, hserved, hk⟩ := hlin.served
    obtain ⟨l, t, hl, heq, ht⟩ := served_lift hskip hK (fun a ha => by
      obtain ⟨b, hb, rfl⟩ := List.mem_map.mp ha
      exact (hlin.sound b hb).1) hserved
    refine ⟨l, t, hl, ?_, ht.trans ?_⟩
    · rw [heq, List.map_map]
      rfl
    · exact congrArg Subtype.val (hk.trans hshared)

/-- When no request is being served, the requests of a linearization are the answered ones. -/
theorem IsLinearizationUpTo.mem_iff_of_quiet
    (hlin : IsLinearizationUpTo out prog K exec s abs x order) (hquiet : x.Quiet)
    (a : Entry Q ρ) : a ∈ order ↔ K a.request ∧ .invoke a.id a.request ∈ x.history ∧
      .respond a.id a.answer ∈ x.history := by
  constructor
  · intro ha
    obtain ⟨hKa, hinv, hdone⟩ := hlin.sound a ha
    exact ⟨hKa, hinv, hdone.resolve_right fun hne => hne (hquiet a.id)⟩
  · rintro ⟨hKa, hinv, hresp⟩
    exact hlin.complete a.id a.request a.answer hinv hresp hKa

end UpTo

end Interleaving
end MultiPlayerGame
