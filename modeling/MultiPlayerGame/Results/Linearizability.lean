import MultiPlayerGame.Library.Interleaving
import MultiPlayerGame.Server.Deeds

/-!
# The game actions are linearizable

Any number of handlers run at once, each step of one between any steps of the others.  Of a handler
of one of the six game actions the others can see one step only: the call on the game state that
decides about the command (`handler_shows`).  What it does before concerns its own request, and what
it does afterwards is fixed by the answer of that call.  So `Interleaving.Reachable.linearization`
applies, with the players, the match status and the number of kills as the abstract state.

The abstract state is compared with everything that is in it, the times at which the players joined
included: a run of the requests one at a time can read the clocks as they were read.
-/

namespace MultiPlayerGame
namespace Linearizability

open Bytes (ascii)
open Program (Shows Calls)
open Interleaving (Atomic Reachable IsLinearization)
open RequestHandler

/-! ## What the deciding steps work on -/

/-- The game state without its event log.  The event log is written in steps of its own, and nothing
that decides about a command reads it. -/
def core (w : World) : KeyedMap Int32 PlayerState × MatchStatus × Int × Nat :=
  (w.game.players, w.game.status, w.game.matchStart, w.game.totalKills)

/-- The steps that decide about a command.  There is one for each of the six commands, and
`hasPlayer` is the one of `CHAT`, which changes nothing. -/
def Deciding : Call → Prop
  | .addPlayer _ | .removePlayer _ | .movePlayer .. | .attackPlayer .. | .setScore ..
  | .hasPlayer _ => True
  | _ => False

/-- Steps that leave the core alone.  They may be made at any moment without any command noticing.
-/
def Silent (c : Call) : Prop := Deciding c → ∃ playerId, c = .hasPlayer playerId

theorem not_deciding_of_quiet {c : Call} (hc : c.Quiet) : ¬ Deciding c := by
  cases c <;> first | exact hc.elim | exact not_false

theorem core_exec_of_silent (fp : Doubles) (c : Call) (e : Env) (w : World) (hc : Silent c) :
    core (c.exec fp e w).2 = core w := by
  cases c <;> first | rfl | (obtain ⟨p, hp⟩ := hc trivial; cases hp)

theorem silent_of_not_deciding {c : Call} (hc : ¬ Deciding c) : Silent c := fun h => absurd h hc

/-- A method that may refuse acts on the core in the same way, whatever the log. -/
theorem attempt_congr {α : Type} {w w' : World} (r r' : Except Bytes (α × GameState))
    (h : core w = core w')
    (hr : r'.map (fun x => (x.1, core { w' with game := x.2 })) =
      r.map fun x => (x.1, core { w with game := x.2 })) :
    (w.attempt r).1 = (w'.attempt r').1 ∧ core (w.attempt r).2 = core (w'.attempt r').2 := by
  cases r with
  | error err =>
    cases r' with
    | error err' =>
      cases hr
      exact ⟨rfl, h⟩
    | ok x' => cases hr
  | ok x =>
    cases r' with
    | error err' => cases hr
    | ok x' =>
      have hx := Except.ok.inj hr
      exact ⟨congrArg Except.ok (congrArg Prod.fst hx).symm, (congrArg Prod.snd hx).symm⟩

/-- **What a deciding step answers and does is a matter of the core.**  Two worlds with the same
players, status and kills let it go in the same way, whatever is in their logs. -/
theorem exec_congr (fp : Doubles) (c : Call) (e : Env) (w w' : World) (hc : Deciding c)
    (h : core w = core w') :
    (c.exec fp e w).1 = (c.exec fp e w').1 ∧
      core (c.exec fp e w).2 = core (c.exec fp e w').2 := by
  have hattempt {α : Type} (r r' : Except Bytes (α × GameState)) := attempt_congr r r' h
  obtain ⟨⟨players, events, status, matchStart, nextEventId, totalKills⟩, m, pool, keys, db⟩ := w
  obtain ⟨⟨players', events', status', matchStart', nextEventId', totalKills'⟩, m', pool', keys',
    db'⟩ := w'
  cases h
  cases c with
  | addPlayer playerId =>
    refine hattempt _ _ ?_
    unfold GameState.addPlayer
    simp only
    split
    · rfl
    split
    · rfl
    · rfl
  | removePlayer playerId =>
    refine hattempt _ _ ?_
    unfold GameState.removePlayer GameState.finishIfEmpty
    simp only
    split
    · rfl
    · simp only [Except.map]
      split
      · rfl
      · rfl
  | movePlayer playerId x y =>
    refine hattempt _ _ ?_
    unfold GameState.movePlayer GameState.modifyPlayer
    simp only
    split
    · rfl
    · rfl
  | attackPlayer attackerId targetId =>
    refine hattempt _ _ ?_
    by_cases hself : attackerId = targetId
    · simp [GameState.attackPlayer, hself, Except.map]
    cases hatt : players.lookup attackerId with
    | none => simp [GameState.attackPlayer, hself, hatt, Except.map]
    | some attacker =>
      cases htgt : players.lookup targetId with
      | none => simp [GameState.attackPlayer, hself, hatt, htgt, Except.map]
      | some target =>
        rw [GameState.attackPlayer_of_lookup hself hatt htgt,
          GameState.attackPlayer_of_lookup hself hatt htgt]
        rfl
  | setScore playerId score =>
    refine hattempt _ _ ?_
    unfold GameState.setScore GameState.modifyPlayer
    simp only
    split
    · rfl
    · rfl
  | hasPlayer playerId => exact ⟨rfl, rfl⟩
  | _ => exact hc.elim

/-! ## What a handler shows -/

section Handlers

variable (cfg : Config) (fp : Doubles)

/-- The response that the answer of the deciding step leads to. -/
def response (c : Command) (x : c.call.Ans) : Json :=
  match c.outcome x with
  | .error err => errorResponse err
  | .ok (_, response) => response

theorem deciding_call (c : Command) : Deciding c.call := by
  cases c <;> trivial

theorem effects_calls (c : Command) (x : c.call.Ans) :
    (c.effects cfg x).Calls fun c => ¬ Deciding c :=
  (c.effects_quiet cfg x).mono fun _ => not_deciding_of_quiet

theorem recordEvent_calls (playerId : Int32) (eventType data : Bytes) :
    (recordEvent playerId eventType data).Calls fun c => ¬ Deciding c :=
  ⟨not_false, fun _ => ⟨not_false, fun _ => ⟨not_false, fun _ => trivial⟩⟩⟩

theorem finish_shows (c : Command) (x : c.call.Ans) :
    Shows Deciding (c.finish cfg x (c.outcome x)) (.ret (response c x)) := by
  unfold response
  cases c.outcome x with
  | error err => exact Shows.ret _
  | ok out =>
    exact Shows.bind_skip (effects_calls cfg c x) fun _ =>
      Shows.bind_skip (recordEvent_calls _ _ _) fun _ => Shows.ret _

/-- **Carrying out a command shows the deciding step and nothing else.**  What comes before it
concerns the request alone, and what follows is fixed by its answer. -/
theorem handler_shows (c : Command) :
    Shows Deciding (c.handler cfg) (.call c.call fun x => .ret (response c x)) :=
  Shows.call (deciding_call c) fun x => finish_shows cfg c x

section Around

/- What is done around the serving of a request: it is counted and timed.  Which steps are looked
at is left open, as long as none of these is among them. -/
variable {seen : Call → Prop} (hclock : ¬ seen .clock) (hcount : ∀ c, ¬ seen (.fetchAdd c))
  (hlatency : ∀ d, ¬ seen (.addLatency d))

include hcount

theorem counted_shows {p q : Handler Json} (h : Shows seen p q) :
    Shows seen (Request.counted p) q := by
  have hbind := h.bind (f := fun response => do
      MetricsRegistry.increment
        (if isOk response then .successfulRequests else .failedRequests)
      return response) (g := .ret) fun _ => Shows.skip (hcount _) fun _ => Shows.ret _
  rw [Program.bind_ret] at hbind
  exact Shows.skip (hcount _) fun _ => hbind

include hclock hlatency

theorem timed_shows {rawJson : Bytes} {q : Handler Json}
    (h : Shows seen (answer cfg fp rawJson) q) : Shows seen (reply cfg fp rawJson) q := by
  have htimed : ∀ duration,
      (MetricsRegistry.recordRequestLatency duration).Calls fun c => ¬ seen c :=
    recordRequestLatency_calls hcount hlatency
  have hafter : ∀ (start : Int) (response : Json), Shows seen (do
      let finish ← invoke .clock
      MetricsRegistry.recordRequestLatency (finish - start)
      return response) (.ret response) := by
    intro start response
    rw [Program.perform_bind]
    exact Shows.skip hclock fun _ => Shows.bind_skip (htimed _) fun _ => Shows.ret _
  refine Shows.skip hclock fun start => ?_
  have hbind := h.bind (hafter start)
  rw [Program.bind_ret] at hbind
  exact hbind

/-- A request shows what the serving of it shows. -/
theorem reply_shows {rawJson : Bytes} {q : Handler Json}
    (h : Shows seen ((Request.decode rawJson).serve cfg fp) q) :
    Shows seen (reply cfg fp rawJson) q := by
  refine timed_shows cfg fp hclock hcount hlatency ?_
  rw [Request.answer_eq]
  exact counted_shows hcount h

end Around

/-! ### Requests that ask for no action on the game -/

theorem counted_calls {P : Call → Prop} (hP : ∀ c, P (.fetchAdd c)) {p : Handler Json}
    (hp : p.Calls P) : (Request.counted p).Calls P :=
  ⟨hP _, fun _ => hp.bind fun _ => ⟨hP _, fun _ => trivial⟩⟩

theorem reply_calls {P : Call → Prop} (hclock : P .clock) (hP : ∀ c, P (.fetchAdd c))
    (hlatency : ∀ d, P (.addLatency d)) {rawJson : Bytes}
    (h : ((Request.decode rawJson).serve cfg fp).Calls P) :
    (reply cfg fp rawJson).Calls P := by
  unfold reply
  rw [Request.answer_eq]
  refine ⟨hclock, fun start => (counted_calls hP h).bind fun response => ?_⟩
  rw [Program.perform_bind]
  exact ⟨hclock, fun _ => (recordRequestLatency_calls hP hlatency _).bind fun _ => trivial⟩

/-- A request for the state or the metrics leaves the core alone throughout. -/
theorem serve_silent {q : Request} (hq : ∀ c, q ≠ .command c) :
    (q.serve cfg fp).Calls Silent :=
  (serve_looks cfg fp hq).mono fun c hc => by
    cases c with
    | hasPlayer playerId => exact fun _ => ⟨playerId, rfl⟩
    | snapshot | load | loadActivePlayers | loadLatencies | fetchAdd | redisGet =>
      exact silent_of_not_deciding not_false
    | _ => exact hc.elim

end Handlers

/-! ## The theorem -/

/-- A request with one of the six actions on the game. -/
def GameAction (rawJson : Bytes) : Prop :=
  ∃ req a, Parser.parse rawJson = some req ∧ Request.action? req = some a ∧ a ≠ .getState ∧
    a ≠ .getMetrics

/-- After its own checks such a request is refused or a command. -/
theorem decode_of_gameAction {rawJson : Bytes} (h : GameAction rawJson) :
    (∃ message, Request.decode rawJson = .refused message) ∨
      ∃ c, Request.decode rawJson = .command c := by
  obtain ⟨req, a, hparse, haction, hstate, hmetrics⟩ := h
  have hown := Request.action_ofAction req a
  rw [Request.decode_of_action hparse haction]
  cases hq : Request.ofAction req a with
  | refused message => exact Or.inl ⟨message, rfl⟩
  | command c => exact Or.inr ⟨c, rfl⟩
  | getState playerId =>
    rw [hq] at hown
    rcases hown with hno | hsome
    · cases hno
    · exact absurd (Option.some.inj hsome).symm hstate
  | getMetrics =>
    rw [hq] at hown
    rcases hown with hno | hsome
    · cases hno
    · exact absurd (Option.some.inj hsome).symm hmetrics

theorem gameAction_of_command {rawJson : Bytes} {c : Command}
    (h : Request.decode rawJson = .command c) : GameAction rawJson := by
  obtain ⟨req, hparse, haction, -⟩ := Request.decode_action (a := c.action) (by rw [h]; rfl)
  exact ⟨req, c.action, hparse, haction, by cases c <;> simp [Command.action],
    by cases c <;> simp [Command.action]⟩

section Theorem

variable {cfg : Config} {fp : Doubles}

theorem reply_atomic {rawJson : Bytes} (h : GameAction rawJson) :
    Atomic Deciding (reply cfg fp rawJson) := by
  have hshows {q : Handler Json} (hq : Shows Deciding ((Request.decode rawJson).serve cfg fp) q) :
      Shows Deciding (reply cfg fp rawJson) q :=
    reply_shows cfg fp not_false (fun _ => not_false) (fun _ => not_false) hq
  rcases decode_of_gameAction h with ⟨message, hdecode⟩ | ⟨c, hdecode⟩
  · exact Or.inl ⟨_, hshows (by rw [hdecode]; exact Shows.ret _)⟩
  · exact Or.inr ⟨c.call, response c, deciding_call c,
      hshows (by rw [hdecode]; exact handler_shows cfg c)⟩

theorem reply_silent {rawJson : Bytes} (h : ¬ GameAction rawJson) :
    (reply cfg fp rawJson).Calls Silent :=
  reply_calls cfg fp (silent_of_not_deciding not_false) (fun _ => silent_of_not_deciding not_false)
    (fun _ => silent_of_not_deciding not_false)
    (serve_silent cfg fp fun _ hc => h (gameAction_of_command hc))

/-- **The six actions on the game are linearizable.**  In every interleaving of any number of
requests there is an order of the completed ones (and of those in progress that have taken effect)
in which serving them one at a time gives the same responses and ends with the same players, match
status and number of kills, and which puts no request behind one that was sent after its response.
When nothing is in progress the order consists of the completed requests. -/
theorem game_actions_linearizable {w₀ : World}
    {x : Interleaving.Config Call Call.Ans Bytes Json World}
    (hx : Reachable (reply cfg fp) (Call.exec fp) w₀ x) :
    ∃ order, IsLinearization (reply cfg fp) GameAction (Call.exec fp) w₀ core x order ∧
      (x.Quiet → ∀ a, a ∈ order ↔ GameAction a.request ∧
        .invoke a.id a.request ∈ x.history ∧ .respond a.id a.answer ∈ x.history) := by
  have hatomic : ∀ q, GameAction q → Atomic Deciding (reply cfg fp q) := fun _ => reply_atomic
  have hsilent : ∀ q, ¬ GameAction q → (reply cfg fp q).Calls Silent := fun _ => reply_silent
  have hskip : ∀ c e w, ¬ Deciding c → core (c.exec fp e w).2 = core w := fun c e w hc =>
    core_exec_of_silent fp c e w (silent_of_not_deciding hc)
  obtain ⟨order, hlin⟩ :=
    hx.linearization hatomic hsilent (core_exec_of_silent fp) hskip (exec_congr fp)
  exact ⟨order, hlin, hlin.mem_iff_of_quiet⟩

/-- Two requests to join as the same player, both sent before either is answered. -/
theorem two_joins_linearizable :
    ∃ (x : Interleaving.Config Call Call.Ans Bytes Json World) (r r' : Json),
    x.history = [.invoke 0 joinZero, .invoke 1 joinZero, .respond 1 r', .respond 0 r] ∧
    ∃ order, IsLinearization (reply ⟨true, true⟩ .zero) GameAction (Call.exec .zero) .started core x
        order ∧
      ∀ a, a ∈ order ↔ GameAction a.request ∧
        .invoke a.id a.request ∈ x.history ∧ .respond a.id a.answer ∈ x.history := by
  have hx₀ : Reachable (reply ⟨true, true⟩ .zero) (Call.exec .zero) .started (.start .started) :=
    .refl
  have hx₁ := hx₀.tail (.invoke _ 0 joinZero (by simp [Interleaving.Config.start]))
  have hx₂ := hx₁.tail (.invoke _ 1 joinZero (by simp [Interleaving.Config.start]))
  obtain ⟨r', t, hruns'⟩ := Program.exists_runs (Call.exec .zero)
    (reply ⟨true, true⟩ .zero joinZero) .started
  have hx₃ := Reachable.runs hx₂ 1 (by simp) hruns'
  have hx₄ := hx₃.tail (.respond _ 1 r' (by simp))
  obtain ⟨r, u, hruns⟩ := Program.exists_runs (Call.exec .zero)
    (reply ⟨true, true⟩ .zero joinZero) t
  have hx₅ := Reachable.runs hx₄ 0 (by simp) hruns
  have hx₆ := hx₅.tail (.respond _ 0 r (by simp))
  obtain ⟨order, hlin, hquiet⟩ := game_actions_linearizable hx₆
  refine ⟨_, r, r', by simp [Interleaving.Config.start], order, hlin, hquiet fun id => ?_⟩
  by_cases h₀ : id = 0
  · simp [h₀]
  by_cases h₁ : id = 1
  · simp [h₁]
  · simp [h₀, h₁, Interleaving.Config.start]

end Theorem

end Linearizability
end MultiPlayerGame
