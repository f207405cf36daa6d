import MultiPlayerGame.Library.Observation
import MultiPlayerGame.Results.Linearizability
import MultiPlayerGame.Server.Snapshots

/-!
# A snapshot shows one moment

`GET_STATE` without a player takes a snapshot of the game under the mutex.  With these requests next
to the six actions everything is still linearizable (`actions_and_snapshots_linearizable`): there is
one order of all of them in which every snapshot shows the players, the match status and the number
of kills as the actions before it have left them.

## What is left out, and why it has to be

A snapshot tells more than that: the last events, and how many there have been.  An event is logged
after the action that it reports, in steps of its own and under another acquisition of the mutex.  A
snapshot may therefore show that a player has moved and not yet show the `MOVE` in the log, and a
second one may show the events of two actions the other way round.  No order of the actions accounts
for that, so `shown` takes the two fields away.  It takes nothing away from the answer to an action
(`shown_response`): those are compared whole, as in `Linearizability`.

## Why it holds

`Linearizability` is about requests that the others see taking one step, where what the step answers
is settled by the players, the status and the kills.  A snapshot is one step as well, but its answer
is not settled by these.  `Interleaving.Reachable.linearizationUpTo` is the theorem for that case,
and it asks for what `shown_snapshot` says: two worlds with the same core are shown alike.

`GET_STATE` for a player looks at the game twice, first at whether the player is there.  The player
may leave in between, and be missing from the snapshot that follows, so such a request takes no
part.
-/

namespace MultiPlayerGame
namespace Glances

open Bytes (ascii)
open Json (int obj object mem_setField)
open Program (Shows Calls)
open Interleaving (AtomicUpTo Reachable IsLinearizationUpTo)
open Linearizability
open RequestHandler

/-! ## What is shown of a snapshot -/

/-- The fields that do not tell of the event log. -/
def kept (key : Bytes) : Bool := key ≠ ascii "total_events" && key ≠ ascii "recent_events"

/-- A response without what it says about the event log. -/
def shown : Json → Json
  | .object fields => .object (fields.filter fun f => kept f.1)
  | j => j

theorem shown_set {j : Json} {key : Bytes} {value : Json} (hkey : kept key = true)
    (hj : shown j = j) : shown (j.set key value) = j.set key value := by
  cases j with
  | object fields =>
    have hfields : ∀ f ∈ fields, kept f.1 = true := List.filter_eq_self.mp (object.inj hj)
    refine congrArg object (List.filter_eq_self.mpr fun f hf => ?_)
    rcases mem_setField hf with rfl | hf
    · exact hkey
    · exact hfields f hf
  | _ => rfl

theorem shown_obj {fields : List (String × Json)} (h : ∀ f ∈ fields, kept (ascii f.1) = true) :
    shown (obj fields) = obj fields := by
  induction fields with
  | nil => rfl
  | cons f rest ih =>
    have hrest : shown (obj rest) = obj rest := ih fun g hg => h g (List.mem_cons_of_mem _ hg)
    exact shown_set (h f List.mem_cons_self) hrest

/-- **Nothing is left out of the answer to a command.**  None of its keys is one of the two, so the
comparison is one of whole answers there. -/
theorem shown_response (c : Command) (x : c.call.Ans) : shown (response c x) = response c x := by
  have herror : ∀ message, shown (errorResponse message) = errorResponse message := fun message =>
    shown_obj (by simp +decide)
  cases c with
  | chat playerId message =>
    cases x with
    | false => exact herror _
    | true => exact shown_obj (by simp +decide)
  | attack playerId targetId =>
    cases x with
    | error err => exact herror err
    | ok result =>
      unfold response
      simp only [Command.outcome, Except.map, attackResponse]
      split
      · exact shown_set (by decide) (shown_obj (by simp +decide))
      · exact shown_obj (by simp +decide)
  | _ =>
    cases x with
    | error err => exact herror err
    | ok out => exact shown_obj (by simp +decide)

/-- The answer to `GET_STATE`, field by field in the order of the keys. -/
theorem succeed_snapshot (fp : Doubles) (now : Nat → Int) (g : GameState) :
    succeed "GET_STATE" (g.snapshot fp now) = .object [
      (ascii "action", .string (ascii "GET_STATE")),
      (ascii "elapsed_seconds", .float (fp.seconds (now g.players.size - g.matchStart))),
      (ascii "match_status", .string g.matchStatusString),
      (ascii "player_count", int (Json.toInt32 g.players.size)),
      (ascii "players", .array (g.players.entries.mapIdx fun i e =>
        GameState.playerJson fp (now i) e.2)),
      (ascii "recent_events", .array ((g.recentEvents 5).map GameState.eventJson)),
      (ascii "status", .string (ascii "ok")),
      (ascii "total_events", .integer g.totalEvents),
      (ascii "total_kills", .integer g.totalKills)] := by
  unfold succeed GameState.snapshot Json.obj
  simp +decide only [List.foldr, Json.set, Json.setField, if_true, if_false]

/-- **What is shown of a snapshot is a matter of the core.**  The players, the status, the time at
which the match started and the kills settle all fields but those of the log. -/
theorem shown_snapshot (fp : Doubles) (now : Nat → Int) {w w' : World} (h : core w = core w') :
    shown (succeed "GET_STATE" (w.game.snapshot fp now)) =
      shown (succeed "GET_STATE" (w'.game.snapshot fp now)) := by
  rw [succeed_snapshot, succeed_snapshot]
  simp +decide only [shown, kept, List.filter]
  obtain ⟨⟨players, events, status, matchStart, nextEventId, totalKills⟩, m, pool, keys, db⟩ := w
  obtain ⟨⟨players', events', status', matchStart', nextEventId', totalKills'⟩, m', pool', keys',
    db'⟩ := w'
  cases h
  rfl

/-! ## What a handler shows of the game -/

/-- The steps that the order is about. -/
def Watched (c : Call) : Prop := Deciding c ∨ c = .snapshot

theorem core_exec_of_unwatched (fp : Doubles) (c : Call) (e : Env) (w : World)
    (hc : ¬ Watched c) : core (c.exec fp e w).2 = core w :=
  core_exec_of_silent fp c e w (silent_of_not_deciding fun h => hc (.inl h))

section Handlers

variable (cfg : Config) (fp : Doubles)

theorem unwatched_of_ofEffects {c : Call} (hc : c.OfEffects) : ¬ Watched c := by
  rintro (h | rfl)
  · exact not_deciding_of_quiet hc.quiet h
  · exact hc

theorem finish_shows (c : Command) (x : c.call.Ans) :
    Shows Watched (c.finish cfg x (c.outcome x)) (.ret (response c x)) := by
  unfold response
  cases c.outcome x with
  | error err => exact Shows.ret _
  | ok out =>
    have hrecord : (recordEvent c.playerId (ascii c.action.name) out.1).Calls
        fun c => ¬ Watched c :=
      ⟨by simp [Watched, Deciding], fun _ => ⟨by simp [Watched, Deciding],
        fun _ => ⟨by simp [Watched, Deciding], fun _ => trivial⟩⟩⟩
    refine Shows.bind_skip (c.effects_calls_of (fun _ hc _ => unwatched_of_ofEffects hc) cfg x)
      fun _ => Shows.bind_skip hrecord fun _ => Shows.ret _

/-- A request whose serving shows `q` shows `q`: what is done around it is not watched. -/
theorem reply_watched {rawJson : Bytes} {q : Handler Json}
    (h : Shows Watched ((Request.decode rawJson).serve cfg fp) q) :
    Shows Watched (reply cfg fp rawJson) q :=
  Linearizability.reply_shows cfg fp (by simp [Watched, Deciding])
    (fun _ => by simp [Watched, Deciding]) (fun _ => by simp [Watched, Deciding]) h

/-- A request for the state that names nobody shows the snapshot. -/
theorem state_watched : Shows Watched ((Request.getState none).serve cfg fp)
    (.call .snapshot fun state => .ret (succeed "GET_STATE" state)) :=
  Shows.call (Or.inr rfl) fun _ => Shows.ret _

end Handlers

/-! ## The theorem -/

/-- An action on the game, or a request for the state that names nobody. -/
def Ordered (rawJson : Bytes) : Prop :=
  GameAction rawJson ∨ Request.decode rawJson = .getState none

section Theorem

variable {cfg : Config} {fp : Doubles}

/-- An action on the game is decided by one step, and the core settles what that step does. -/
theorem action_atomic {rawJson : Bytes} (h : GameAction rawJson) :
    AtomicUpTo shown (Call.exec fp) core Watched (reply cfg fp rawJson) := by
  rcases decode_of_gameAction h with ⟨message, hdecode⟩ | ⟨c, hdecode⟩
  · exact Or.inl ⟨_, reply_watched cfg fp (by rw [hdecode]; exact Shows.ret _)⟩
  · have hdeciding : Deciding c.call := deciding_call c
    refine Or.inr ⟨c.call, response c, Or.inl hdeciding, reply_watched cfg fp ?_, ?_⟩
    · rw [hdecode]
      exact Shows.call (Or.inl hdeciding) fun x => finish_shows cfg c x
    · intro e w w' hww'
      obtain ⟨hans, hcore⟩ := exec_congr fp c.call e w w' hdeciding hww'
      exact ⟨congrArg (fun x => shown (response c x)) hans, hcore⟩

/-- A snapshot is one step as well, and `shown` hides what the core does not settle. -/
theorem snapshot_atomic {rawJson : Bytes} (h : Request.decode rawJson = .getState none) :
    AtomicUpTo shown (Call.exec fp) core Watched (reply cfg fp rawJson) := by
  refine Or.inr ⟨.snapshot, succeed "GET_STATE", Or.inr rfl, reply_watched cfg fp ?_, ?_⟩
  · rw [h]
    exact state_watched cfg fp
  · intro e w w' hww'
    exact ⟨shown_snapshot fp e.now hww', hww'⟩

/-- **Actions and snapshots are linearizable together.**  In every interleaving there is an order of
the completed ones in which serving them one at a time gives the same answers to the actions, and
the same snapshots apart from the event log; and it puts no request behind one that was sent after
its answer. -/
theorem actions_and_snapshots_linearizable {w₀ : World}
    {x : Interleaving.Config Call Call.Ans Bytes Json World}
    (hx : Reachable (reply cfg fp) (Call.exec fp) w₀ x) :
    ∃ order, IsLinearizationUpTo shown (reply cfg fp) Ordered (Call.exec fp) w₀ core x order ∧
      (x.Quiet → ∀ a, a ∈ order ↔ Ordered a.request ∧
        .invoke a.id a.request ∈ x.history ∧ .respond a.id a.answer ∈ x.history) := by
  have hatomic : ∀ q, Ordered q → AtomicUpTo shown (Call.exec fp) core Watched (reply cfg fp q) :=
    fun q hq => hq.elim action_atomic snapshot_atomic
  have hsilent : ∀ q, ¬ Ordered q → (reply cfg fp q).Calls Silent := fun q hq =>
    reply_silent fun h => hq (.inl h)
  obtain ⟨order, hlin⟩ :=
    hx.linearizationUpTo hatomic hsilent (core_exec_of_silent fp) (core_exec_of_unwatched fp)
  exact ⟨order, hlin, hlin.mem_iff_of_quiet⟩

end Theorem

end Glances
end MultiPlayerGame
