import MultiPlayerGame.Server.Deeds

/-!
# No error leaves a half-done action

A request that is not answered with `ok` has changed nothing: neither the game state nor what is
stored in Redis and MySQL.  One that is has recorded one event if it was an action on the game, and
none if it only asked.  Both hold from any state of the server and whatever Redis and MySQL do.
So the number of events is the number of actions answered with `ok`.

## Why it holds

Every action decides in one step under the mutex, and its method checks everything before it changes
anything.  So a refusal comes from a state that is as it was.  The handlers return right behind it,
before they write to the cache, the database or the log (`Request.serve` and `Command.finish`).  A
request that fails before it reaches the game state, because a field is missing or the action
unknown, has made no step but counting.

Redis and MySQL cannot make a request fail afterwards.  What they return is not looked at by the
handlers of the six actions, so a command that was carried out is answered with `ok` and recorded,
whether or not it was stored.
-/

namespace MultiPlayerGame
namespace Errors

open Program (Runs Served)
open RequestHandler

/-- Does the handler of the action record an event? -/
def records : Action → Bool
  | .getState | .getMetrics => false
  | _ => true

/-- Is this an action on the game that was answered with `ok`? -/
def recorded (e : Bytes × Json) : Bool :=
  isOk e.2 && (Request.decode e.1).action.any records

/-- What is kept of a log that is full. -/
def capped (events : List GameEvent) : List GameEvent :=
  if GameState.maxEvents < events.length then events.tail else events

/-- The log after one more event.  It carries the next id, and it has displaced the oldest one if
the log was full. -/
def OneEvent (g g' : GameState) : Prop :=
  g'.nextEventId = g.nextEventId + 1 ∧
    ∃ ev : GameEvent, ev.eventId = g.nextEventId ∧ g'.events = capped (g.events ++ [ev])

theorem records_action (c : Command) : records c.action = true := by
  cases c <;> rfl

theorem oneEvent_record {g g₁ : GameState} (hlog : g₁.log = g.log) (playerId : Int32)
    (eventType data : Bytes) (timestamp : Int) :
    OneEvent g (g₁.record playerId eventType data timestamp) := by
  obtain ⟨hevents, hnext⟩ := Prod.mk.inj hlog
  refine ⟨?_, ⟨g₁.nextEventId, playerId, eventType, data, timestamp⟩, hnext, ?_⟩
  · rw [← hnext]
    rfl
  · rw [← hevents]
    rfl

/-- A response that is not `ok` comes with the state as it was, and the others with the right
log. -/
theorem responds_log {fp : Doubles} {unreadable : Prop} {q : Request} {g g' : GameState} {r : Json}
    (h : Responds fp unreadable q g r g') :
    (isOk r = false → g' = g) ∧
      (isOk r = true → ∃ a, q.action = some a ∧
        (records a = true → OneEvent g g') ∧ (records a = false → g' = g)) := by
  cases h with
  | refused message | rejected | absent | unread =>
    refine ⟨fun _ => rfl, fun hok => ?_⟩
    rw [Request.isOk_errorResponse] at hok
    cases hok
  | done c now _ g₁ data r timestamp happly =>
    have hok := Command.isOk_of_apply happly
    refine ⟨fun hno => ?_, fun _ => ⟨c.action, rfl, fun _ => ?_, fun hno => ?_⟩⟩
    · rw [hok] at hno
      cases hno
    · exact oneEvent_record (Command.log_apply happly) _ _ _ _
    · rw [records_action] at hno
      cases hno
  | state playerId now => exact ⟨fun _ => rfl, fun _ => ⟨.getState, rfl, by simp [records]⟩⟩
  | metrics m => exact ⟨fun _ => rfl, fun _ => ⟨.getMetrics, rfl, by simp [records]⟩⟩

section Run

variable (cfg : Config) (fp : Doubles)

variable {cfg fp} in
/-- The number of events ever recorded, one request later. -/
theorem totalEvents_step {w w' : World} {rawJson : Bytes} {r : Json}
    (h : Runs (Call.exec fp) (reply cfg fp rawJson) w r w') :
    w'.game.nextEventId = w.game.nextEventId + if recorded (rawJson, r) then 1 else 0 := by
  have h' : Runs (Call.execVia fp id) (reply cfg fp rawJson) w r w' := h
  obtain ⟨hno, hyes⟩ := responds_log (reply_responds h').1
  cases hok : isOk r with
  | false => simp [recorded, hok, hno hok]
  | true =>
    obtain ⟨a, ha, hone, hnone⟩ := hyes hok
    cases hrecords : records a with
    | false => simp [recorded, hok, ha, hrecords, hnone hrecords]
    | true => simp [recorded, hok, ha, hrecords, (hone hrecords).1]

/-- **Errors change nothing, and successes record what they should.**  From any state and whatever
Redis and MySQL do, a request that is not answered with `ok` leaves the game state, the Redis keys
and the MySQL rows as they were; one that is was made with some action, and records exactly one
event if the action is one of the six on the game and none if it is not.  So from the start the
number of events is the number of those actions answered with `ok`. -/
theorem errors_change_nothing :
    (∀ w w' rawJson r, Runs (Call.exec fp) (reply cfg fp rawJson) w r w' →
      (isOk r = false → w'.game = w.game ∧ w'.stored = w.stored) ∧
      (isOk r = true → ∃ req a, Parser.parse rawJson = some req ∧
        Request.action? req = some a ∧ (records a = true → OneEvent w.game w'.game) ∧
        (records a = false → w'.game = w.game))) ∧
    ∀ w₀ w history, w₀.Fresh → Served (reply cfg fp) (Call.exec fp) w₀ history w →
      w.game.totalEvents = history.countP recorded := by
  constructor
  · intro w w' rawJson r h
    have h' : Runs (Call.execVia fp id) (reply cfg fp rawJson) w r w' := h
    obtain ⟨hresponds, hstored⟩ := reply_responds h'
    obtain ⟨hno, hyes⟩ := responds_log hresponds
    refine ⟨fun hok => ⟨hno hok, hstored hok⟩, fun hok => ?_⟩
    obtain ⟨a, ha, hlog⟩ := hyes hok
    obtain ⟨req, hparse, haction, -⟩ := Request.decode_action ha
    exact ⟨req, a, hparse, haction, hlog⟩
  · intro w₀ w history hfresh h
    suffices hnext : w.game.nextEventId = history.countP recorded + 1 by
      rw [GameState.totalEvents, hnext, Nat.add_sub_cancel]
    induction h with
    | nil =>
      obtain ⟨matchStart, hgame⟩ := hfresh
      rw [hgame]
      rfl
    | snoc _ last ih =>
      rw [totalEvents_step last, ih, List.countP_append, List.countP_singleton]
      omega

end Run

/-- The second `JOIN` of player 0 is refused and changes nothing.  The requests of the skirmish are
eight, this one among them, and they are recorded as seven events. -/
theorem errors_change_nothing_skirmish :
    (∃ r w, Runs (Call.exec .zero) (reply ⟨true, true⟩ .zero joinZero)
        (leftBy ⟨true, true⟩ {} [joinZero, Skirmish.joinOne]) r w ∧ isOk r = false ∧
      w.game = (leftBy ⟨true, true⟩ {} [joinZero, Skirmish.joinOne]).game ∧
      w.stored = (leftBy ⟨true, true⟩ {} [joinZero, Skirmish.joinOne]).stored) ∧
    Skirmish.requests.length = 8 ∧
    (leftBy ⟨true, true⟩ {} Skirmish.requests).game.totalEvents = 7 := by
  obtain ⟨hone, hall⟩ := errors_change_nothing ⟨true, true⟩ .zero
  refine ⟨?_, rfl, ?_⟩
  · have hruns := Program.runs_run (Call.exec .zero) {} (reply ⟨true, true⟩ .zero joinZero)
      (leftBy ⟨true, true⟩ {} [joinZero, Skirmish.joinOne])
    have hrefused : isOk ((reply ⟨true, true⟩ .zero joinZero).run (fun c => Call.exec .zero c {})
        (leftBy ⟨true, true⟩ {} [joinZero, Skirmish.joinOne])).1 = false := by decide +kernel
    obtain ⟨hgame, hstored⟩ := (hone _ _ _ _ hruns).1 hrefused
    exact ⟨_, _, hruns, hrefused, hgame, hstored⟩
  · rw [hall _ _ _ World.started_fresh (served_repliesTo ⟨true, true⟩ {} Skirmish.requests)]
    decide +kernel

end Errors
end MultiPlayerGame
