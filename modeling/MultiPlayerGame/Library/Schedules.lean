import MultiPlayerGame.Library.Interleaving

/-!
# Interleavings that are computed

A result about all interleavings says little if one does not know any interleaving worth looking at.
Most of those that are worth it are long.  A single request makes some twenty calls, the point at
which another one has to come in between is somewhere among them, and a derivation with
`Interleaving.Step` would have to name every call and its answer on the way.

So an interleaving can also be given by its schedule: who is sent, who makes the next call and what
the environment does in it, who answers.  `Config.play` computes from the schedule the configuration
that it leads to, and `Reachable.play` says that this configuration is reachable.  The kernel can
evaluate `play`, so what holds in the end is decided, whatever the length of the schedule.

## What a schedule cannot do

Sending a name twice, or answering a request that has not come to its end, makes `play` fail.  A
turn of a request that has nothing left to do, on the other hand, is no step and not a failure: a
schedule may give a request more turns than it needs, and does not have to know how many calls are
left.
-/

namespace MultiPlayerGame
namespace Interleaving

variable {C : Type} {Ans : C → Type} {Q ρ σ ε : Type}

/-- One entry of a schedule. -/
inductive Move (Q ε : Type) where
  /-- a request is sent -/
  | send (id : ℕ) (q : Q)
  /-- a request makes its next call, if there is one -/
  | turn (id : ℕ) (e : ε)
  /-- a request is answered -/
  | answer (id : ℕ)

/-- The same request makes the next calls. -/
def turns (id n : ℕ) (e : ε) : List (Move Q ε) := List.replicate n (.turn id e)

/-- A request has been sent under this name. -/
def Event.sends (id : ℕ) : Event Q ρ → Bool
  | .invoke i _ => i == id
  | .respond _ _ => false

section Play

variable (prog : Q → Program C Ans ρ) (exec : (c : C) → ε → σ → Ans c × σ)

/-- What an entry of a schedule does.  It is defined for every configuration, and leaves it alone if
the entry does not fit. -/
def Config.move (x : Config C Ans Q ρ σ) : Move Q ε → Option (Config C Ans Q ρ σ)
  | .send id q =>
    if x.history.any (Event.sends id) then none
    else some ⟨x.shared, Function.update x.inflight id (some (prog q)),
      x.history ++ [.invoke id q]⟩
  | .turn id e =>
    match x.inflight id with
    | some (.call c k) => some ⟨(exec c e x.shared).2,
        Function.update x.inflight id (some (k (exec c e x.shared).1)), x.history⟩
    | _ => some x
  | .answer id =>
    match x.inflight id with
    | some (.ret r) => some ⟨x.shared, Function.update x.inflight id none,
        x.history ++ [.respond id r]⟩
    | _ => none

/-- What a schedule leads to.  One entry after another, which the kernel can compute. -/
def Config.play (x : Config C Ans Q ρ σ) : List (Move Q ε) → Option (Config C Ans Q ρ σ)
  | [] => some x
  | m :: moves => (x.move prog exec m).bind fun y => y.play moves

variable {prog exec} {s : σ} {x y : Config C Ans Q ρ σ}

/-- **An entry of a schedule is a step, or none.**  An entry that cannot be executed is skipped, so
that every list is a schedule. -/
theorem Reachable.move (hx : Reachable prog exec s x) {m : Move Q ε}
    (h : x.move prog exec m = some y) : Reachable prog exec s y := by
  cases m with
  | send id q =>
    rw [Config.move] at h
    split at h
    · cases h
    · rename_i hfresh
      cases h
      refine hx.tail (.invoke x id q fun q' hq' => hfresh ?_)
      exact List.any_eq_true.mpr ⟨_, hq', beq_self_eq_true id⟩
  | turn id e =>
    rw [Config.move] at h
    split at h
    · rename_i c k hrun
      cases h
      exact hx.tail (.call x id c k e hrun)
    · cases h
      exact hx
  | answer id =>
    rw [Config.move] at h
    split at h
    · rename_i r hrun
      cases h
      exact hx.tail (.respond x id r hrun)
    · cases h

/-- **What a schedule leads to is reachable.**  So a run that is written down as a list needs no
proof for its single steps. -/
theorem Reachable.play (hx : Reachable prog exec s x) {moves : List (Move Q ε)}
    (h : x.play prog exec moves = some y) : Reachable prog exec s y := by
  induction moves generalizing x with
  | nil =>
    cases h
    exact hx
  | cons m moves ih =>
    obtain ⟨z, hz, hplay⟩ := Option.bind_eq_some_iff.mp h
    exact ih (hx.move hz) hplay

/-- What holds of the configuration that a schedule leads to can be decided. -/
theorem exists_play (moves : List (Move Q ε)) (p : Config C Ans Q ρ σ → Prop) [DecidablePred p]
    (h : ((Config.start s).play prog exec moves).any (fun x => p x) = true) :
    ∃ x, Reachable prog exec s x ∧ p x := by
  obtain ⟨x, hplay, hp⟩ := (Option.any_eq_true _ _).mp h
  exact ⟨x, Reachable.play .refl hplay, of_decide_eq_true hp⟩

end Play

end Interleaving
end MultiPlayerGame
