import MultiPlayerGame.Server.RunLoop

/-!
# A request to stop that is forgotten

`run` raises `m_running` late, after the socket, the exporter and the pool have been set up, and it
does so without looking.  A call of `stop` that lowers the flag before is undone: when it returns
the flag is up, or is going to be, and the accept loop goes on --- on a socket that has been shut
down, if it was listening already, so that every `accept` fails and the loop spins.

It is the only way.  If the flag is not raised any more once `stop` has lowered it (`RaisedFirst`),
then it stays down, and the loop begins no further iteration (`stop_kept_iff`).
-/

namespace MultiPlayerGame
namespace StopRequest

open RunLoop
open Relation (ReflTransGen)
open Transition (System Reachable)

variable {s t : State}

/-- When `stop` has returned the flag is down, and the accept loop begins no further iteration. -/
def Kept (s : State) : Prop :=
  s.stop = .returned → s.running = false ∧ ∀ t, Step s t → t.iterations = s.iterations

/-- If this step raises the flag, then `stop` has not lowered it before. -/
def RaisedFirst (s t : State) : Prop := s.run = .pooled → t.run = .head → s.stop = .outside

/-- The flag is down once `stop` has lowered it. -/
def Down (s : State) : Prop := s.stop ≠ .outside → s.running = false

/-- **One step**, if the flag is not raised any more.  There is no other step that sets it to
`true`. -/
theorem down_step (h : Step s t) (hfirst : RaisedFirst s t) (hs : Down s) : Down t := by
  cases h with
  | raise hpooled => exact fun hlowered => absurd (hfirst hpooled rfl) hlowered
  | lower hstop => exact fun _ => rfl
  | stopExporter hstop => exact fun _ => hs (by rw [hstop]; decide)
  | shutdown hstop hfd => exact fun _ => hs (by rw [hstop]; decide)
  | noSocket hstop hfd => exact fun _ => hs (by rw [hstop]; decide)
  | _ => exact hs

/-- An iteration begins when the flag is found up. -/
theorem iterations_step (h : Step s t) (hdown : s.running = false) :
    t.iterations = s.iterations := by
  cases h with
  | iterate hhead hrunning =>
    rw [hdown] at hrunning
    cases hrunning
  | _ => rfl

theorem kept_of_down (h : Down s) : Kept s := fun hreturned => by
  have hdown := h (by rw [hreturned]; decide)
  exact ⟨hdown, fun t hstep => iterations_step hstep hdown⟩

/-- `stop` gets to its end whatever `run` does. -/
theorem stop_returns (hlowered : s.stop ≠ .outside) : ∃ u, ReflTransGen Step s u ∧
    u.stop = .returned ∧ u.run = s.run ∧ u.running = s.running := by
  have hlast : ∀ s : State, s.stop = .exporterStopped → ∃ u, Step s u ∧
      u.stop = .returned ∧ u.run = s.run ∧ u.running = s.running := fun s hstop => by
    cases hfd : s.listenFd with
    | false => exact ⟨_, .noSocket s hstop hfd, rfl, rfl, rfl⟩
    | true => exact ⟨_, .shutdown s hstop hfd, rfl, rfl, rfl⟩
  cases hstop : s.stop with
  | outside => exact absurd hstop hlowered
  | lowered =>
    obtain ⟨u, hu, hreturned, hrun, hrunning⟩ :=
      hlast { s with stop := .exporterStopped, exporter := s.exporter.map fun _ => false } rfl
    exact ⟨u, .tail (.single (.stopExporter s hstop)) hu, hreturned, hrun, hrunning⟩
  | exporterStopped =>
    obtain ⟨u, hu, hreturned⟩ := hlast s hstop
    exact ⟨u, .single hu, hreturned⟩
  | returned => exact ⟨s, .refl, hstop, rfl, rfl⟩

/-- **The request to stop is kept exactly if the flag was raised first.**  In a run in which `run`
raises the flag before `stop` lowers it, or not at all, `stop` has its effect when it returns; and
wherever `run` raises the flag later, it may go on for ever after `stop` has returned. -/
theorem stop_kept_iff (s : State) :
    (Reachable (server.restrict RaisedFirst) s → Kept s) ∧
      (Reachable server s → ∀ t, Step s t → ¬ RaisedFirst s t →
        ∃ u, ReflTransGen Step t u ∧ ¬ Kept u) := by
  constructor
  · intro hs
    refine kept_of_down (hs.invariant (fun s hstart => ?_) fun s t hs hstep =>
      down_step hstep.1 hstep.2 hs)
    rw [hstart]
    exact fun hno => absurd rfl hno
  · intro _ t hstep hlate
    obtain ⟨hpooled, hhead, hlowered⟩ : s.run = .pooled ∧ t.run = .head ∧ s.stop ≠ .outside := by
      simpa [RaisedFirst] using hlate
    have hraised : t.running = true ∧ t.stop = s.stop := by
      cases hstep with
      | raise => exact ⟨rfl, rfl⟩
      | iterate h | leave h | accept h | acceptFails h | submit h | retry h | giveUp h
      | drained h =>
        rw [hpooled] at h
        cases h
      | lower | stopExporter | shutdown | noSocket =>
        rw [hpooled] at hhead
        cases hhead
      | _ => cases hhead
    obtain ⟨u, hu, hreturned, -, hrunning⟩ := stop_returns (hraised.2 ▸ hlowered)
    refine ⟨u, hu, fun hkept => ?_⟩
    have hdown := (hkept hreturned).1
    rw [hrunning, hraised.1] at hdown
    cases hdown

/-- The loop is waiting in `accept` when `stop` is called. -/
theorem stop_kept_iff_accepting : ∃ s, Reachable (server.restrict RaisedFirst) s ∧
    s.stop = .returned ∧ s.iterations = 1 ∧ s.running = false := by
  have h₀ : Reachable (server.restrict RaisedFirst) {} := .start rfl
  have h₁ := h₀.step ⟨.begin _ rfl, fun h => by cases h⟩
  have h₂ := h₁.step ⟨.socket _ rfl, fun h => by cases h⟩
  have h₃ := h₂.step ⟨.bind _ rfl, fun h => by cases h⟩
  have h₄ := h₃.step ⟨.listen _ rfl, fun h => by cases h⟩
  have h₅ := h₄.step ⟨.makeExporter _ rfl, fun h => by cases h⟩
  have h₆ := h₅.step ⟨.startExporter _ true rfl, fun h => by cases h⟩
  have h₇ := h₆.step ⟨.makePool _ rfl, fun h => by cases h⟩
  have h₈ := h₇.step ⟨.raise _ rfl, fun _ _ => rfl⟩
  have h₉ := h₈.step ⟨.iterate _ rfl rfl, fun h => by cases h⟩
  have h₁₀ := h₉.step ⟨.lower _ rfl (by decide), fun h => by cases h⟩
  have h₁₁ := h₁₀.step ⟨.stopExporter _ rfl, fun h => by cases h⟩
  have h₁₂ := h₁₁.step ⟨.shutdown _ rfl rfl, fun h => by cases h⟩
  exact ⟨_, h₁₂, rfl, rfl, ((stop_kept_iff _).1 h₁₂ rfl).1⟩

/-- `stop` is called while the pool is being made.  When it has returned, `run` raises the flag and
enters the loop, on a socket that has been shut down. -/
theorem exists_forgotten : ∃ s, Reachable server s ∧ s.stop = .returned ∧ s.shut = true ∧
    ¬ Kept s := by
  have h₀ : Reachable server {} := .start rfl
  have h₁ := h₀.step (.begin _ rfl)
  have h₂ := h₁.step (.socket _ rfl)
  have h₃ := h₂.step (.bind _ rfl)
  have h₄ := h₃.step (.listen _ rfl)
  have h₅ := h₄.step (.makeExporter _ rfl)
  have h₆ := h₅.step (.startExporter _ true rfl)
  have h₇ := h₆.step (.lower _ rfl (by decide))
  have h₈ := h₇.step (.stopExporter _ rfl)
  have h₉ := h₈.step (.shutdown _ rfl rfl)
  have h₁₀ := h₉.step (.makePool _ rfl)
  have h₁₁ := h₁₀.step (.raise _ rfl)
  refine ⟨_, h₁₁, rfl, rfl, fun hkept => ?_⟩
  have hdown := (hkept rfl).1
  cases hdown

end StopRequest
end MultiPlayerGame
