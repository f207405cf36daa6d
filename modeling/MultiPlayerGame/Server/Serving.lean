import MultiPlayerGame.Server.Arena
import MultiPlayerGame.Server.Requests

/-!
# What serving one request can do

`Request.serve` is a program; here it is turned into a relation between the game state before, the
response and the game state after (`Responds`), one rule for each way a request can go.  Everything
that holds of runs of the server is derived from these rules.

Three facts carry the translation.  What a command does outside the game state leaves the game state
alone (`effects_quiet`).  A command that is refused changes nothing at all, and one that is not has
a response with status `ok` (`handler_runs`).  And the rules of the arena say how a command goes
(`arena_apply`).

## Why a relation

A handler takes dozens of steps, and most of them concern copies of the game, counters or clocks.  A
proof about the game that unfolded the handlers would meet all of these in every branch, once for
each theorem.  They are met here once.  `Calls` says of a program which steps it makes, by recursion
on the program, and a frame lemma for those steps (`exec_quiet`, `exec_unlogged`, `exec_volatile`)
is then a frame lemma for every run (`Program.Calls.runs_eq`).  What is left of a command is one
step on the game state and one event.

## How to use it

`reply_responds` is the theorem for a single request: the payload decodes to some `Request`, and the
game states before and after and the response are related by `Responds`.  Its rules have the guards
of the code as premises, so a case split on `Responds` gives back everything that the code has
checked.  For a command that succeeded, `CarriedOut` splits further: who was in the game, what was
answered, what was recorded, and how the players stand, one constructor for each of the six.

`Unreadable` is the one outside influence on an answer.  A `GET_STATE` for a player asks Redis
first, and a reply that makes the client throw turns the answer into an error.
-/

namespace MultiPlayerGame

open Bytes (ascii)
open Program (Runs runs_ret runs_call runs_bind)
open RequestHandler
open GameState (clamp mapMin mapMax)

/-! ## Steps that leave the game state alone -/

/-- Steps on the cache, the database, the metrics and the clocks; and looking at the game state as a
whole. -/
def Call.Quiet : Call → Prop
  | .addPlayer _ | .removePlayer _ | .movePlayer .. | .attackPlayer .. | .setScore ..
  | .hasPlayer _ | .fetchAddEventId | .pushEvent _ => False
  | _ => True

/-- The counters of the requests, which `handle` itself counts. -/
def Counter.OfRequests : Counter → Bool
  | .requestsTotal | .successfulRequests | .failedRequests | .latencyCount
  | .latencyBucketCounts _ => true
  | _ => false

/-- Steps that do not count requests. -/
def Call.Uncounted : Call → Prop
  | .fetchAdd c => c.OfRequests = false
  | _ => True

theorem Call.exec_quiet (fp : Doubles) {c : Call} (hc : c.Quiet) (e : Env) (w : World) :
    (c.exec fp e w).2.game = w.game := by
  cases c <;> first | rfl | exact hc.elim

/-- Steps that write neither to Redis nor to MySQL. -/
def Call.Volatile : Call → Prop
  | .redis _ | .dbExecute _ => False
  | _ => True

/-- What outlives the process: the keys in Redis and the rows in MySQL. -/
def World.stored (w : World) : KeyedMap Bytes Bytes × KeyedMap Int32 PlayerRow × List EventRow :=
  (w.keys, w.db.players, w.db.gameEvents)

theorem World.stored_attempt {α : Type} (w : World) (r : Except Bytes (α × GameState)) :
    (w.attempt r).2.stored = w.stored := by
  cases r with
  | error err => rfl
  | ok r => rfl

theorem Database.stored_open (sql : Sql) (db : Database) :
    (db.open sql).2.players = db.players ∧ (db.open sql).2.gameEvents = db.gameEvents := by
  unfold Database.open
  split
  · exact ⟨rfl, rfl⟩
  split
  · exact ⟨rfl, rfl⟩
  · exact ⟨rfl, rfl⟩

theorem Call.exec_volatile (fp : Doubles) {c : Call} (hc : c.Volatile) (e : Env) (w : World) :
    (c.exec fp e w).2.stored = w.stored := by
  cases c with
  | addPlayer => exact World.stored_attempt w _
  | removePlayer => exact World.stored_attempt w _
  | movePlayer => exact World.stored_attempt w _
  | attackPlayer => exact World.stored_attempt w _
  | setScore => exact World.stored_attempt w _
  | dbOpen =>
    have h := Database.stored_open e.sql w.db
    exact congrArg₂ (fun players events => (w.keys, players, events)) h.1 h.2
  | redis => exact hc.elim
  | dbExecute => exact hc.elim
  | _ => rfl

/-! ### The programs made of such steps -/

theorem when_calls {P : Call → Prop} {b : Bool} {p : Handler Unit} (hp : p.Calls P) :
    (when b p).Calls P := by
  cases b with
  | false => trivial
  | true => exact hp

theorem invoke_calls {P : Call → Prop} {c : Call} (hc : P c) : (invoke c).Calls P :=
  ⟨hc, fun _ => trivial⟩

theorem discard_invoke_calls {P : Call → Prop} {c : Call} (hc : P c) :
    (discard (invoke c)).Calls P :=
  ⟨hc, fun _ => trivial⟩

/-- Steps of an operation on the database. -/
def Call.OnDatabase : Call → Prop
  | .dbOpen | .dbExecute _ | .clock | .fetchAdd _ | .addDbLatency _ => True
  | _ => False

theorem Call.OnDatabase.quiet {c : Call} (hc : c.OnDatabase) : c.Quiet := by
  cases c with
  | dbOpen | dbExecute | clock | fetchAdd | addDbLatency => trivial
  | _ => exact hc.elim

theorem recordDatabaseOperation_calls {P : Call → Prop}
    (hP : ∀ c : Counter, c.OfRequests = false → P (.fetchAdd c))
    (hlatency : ∀ d, P (.addDbLatency d)) (duration : Int) (success : Bool) :
    (MetricsRegistry.recordDatabaseOperation duration success).Calls P := by
  refine ⟨hP _ rfl, fun _ => ⟨hP _ ?_, fun _ => ⟨hlatency _, fun _ => trivial⟩⟩⟩
  cases success <;> rfl

theorem upsertPlayer_calls {P : Call → Prop} (hP : ∀ c : Call, c.OnDatabase → c.Uncounted → P c)
    (playerId : Int32) (username : Bytes) (score kills : Int32) :
    (DatabaseManager.upsertPlayer playerId username score kills).Calls P := by
  have hcount : ∀ duration success,
      (MetricsRegistry.recordDatabaseOperation duration success).Calls P :=
    recordDatabaseOperation_calls (fun _ hc => hP _ trivial hc) fun _ => hP _ trivial trivial
  refine ⟨hP _ trivial trivial, fun ok => ?_⟩
  cases ok with
  | false => trivial
  | true =>
    refine ⟨hP _ trivial trivial, fun t0 => ⟨hP _ trivial trivial, fun outcome => ?_⟩⟩
    cases outcome with
    | executed ok =>
      exact ⟨hP _ trivial trivial, fun t1 => (hcount _ _).bind fun _ => trivial⟩
    | _ => exact (hcount _ _).bind fun _ => trivial

theorem recordDbEvent_calls {P : Call → Prop} (hP : ∀ c : Call, c.OnDatabase → c.Uncounted → P c)
    (matchId : Bytes) (playerId : Int32) (eventType eventData : Bytes) :
    (DatabaseManager.recordEvent matchId playerId eventType eventData).Calls P := by
  have hcount : ∀ duration success,
      (MetricsRegistry.recordDatabaseOperation duration success).Calls P :=
    recordDatabaseOperation_calls (fun _ hc => hP _ trivial hc) fun _ => hP _ trivial trivial
  refine ⟨hP _ trivial trivial, fun ok => ?_⟩
  cases ok with
  | false => trivial
  | true =>
    refine ⟨hP _ trivial trivial, fun t0 => ⟨hP _ trivial trivial, fun outcome => ?_⟩⟩
    cases outcome with
    | initFailed => trivial
    | prepareFailed => exact (hcount _ _).bind fun _ => trivial
    | _ => exact ⟨hP _ trivial trivial, fun t1 => (hcount _ _).bind fun _ => trivial⟩

theorem storePlayer_calls {P : Call → Prop} (hP : ∀ c : Call, c.OnDatabase → c.Uncounted → P c)
    (playerId score : Int32) (eventType eventData : Bytes) :
    (storePlayer playerId score eventType eventData).Calls P :=
  (upsertPlayer_calls hP _ _ _ _).bind fun _ =>
    (recordDbEvent_calls hP _ _ _ _).bind fun _ => trivial

/-- Steps that a command takes outside the game state. -/
def Call.OfEffects : Call → Prop
  | .activePlayerCount | .setActivePlayers _ | .time | .redis _ => True
  | c => c.OnDatabase

theorem Call.OnDatabase.ofEffects {c : Call} (hc : c.OnDatabase) : c.OfEffects := by
  cases c <;> first | exact hc | trivial

theorem Call.OfEffects.quiet {c : Call} (hc : c.OfEffects) : c.Quiet := by
  cases c <;> first | exact trivial | exact Call.OnDatabase.quiet hc

theorem Command.effects_calls_of {P : Call → Prop}
    (hP : ∀ c : Call, c.OfEffects → c.Uncounted → P c) (cfg : Config) (c : Command)
    (x : c.call.Ans) : (c.effects cfg x).Calls P := by
  have hupdate : updateActivePlayers.Calls P :=
    ⟨hP _ trivial trivial, fun _ => ⟨hP _ trivial trivial, fun _ => trivial⟩⟩
  have hsession : ∀ playerId, (cacheSession playerId).Calls P := fun playerId =>
    ⟨hP _ trivial trivial, fun _ => ⟨hP _ trivial trivial, fun _ => ⟨hP _ trivial trivial,
      fun _ => trivial⟩⟩⟩
  have hstore : ∀ playerId score eventType eventData,
      (storePlayer playerId score eventType eventData).Calls P :=
    storePlayer_calls fun c hc => hP c hc.ofEffects
  cases c with
  | join playerId =>
    exact hupdate.bind fun _ => (when_calls (hsession playerId)).bind fun _ =>
      when_calls (hstore _ _ _ _)
  | move => exact when_calls (discard_invoke_calls (hP (.redis _) trivial trivial))
  | attack => trivial
  | chat => trivial
  | updateScore => trivial
  | leave playerId =>
    cases x with
    | error err => trivial
    | ok finalScore =>
      exact hupdate.bind fun _ =>
        (when_calls (discard_invoke_calls (hP (.redis _) trivial trivial))).bind fun _ =>
          when_calls (hstore _ _ _ _)

/-- What a command does outside the game state. -/
theorem Command.effects_calls {P : Call → Prop} (hP : ∀ c : Call, c.Quiet → c.Uncounted → P c)
    (cfg : Config) (c : Command) (x : c.call.Ans) : (c.effects cfg x).Calls P :=
  c.effects_calls_of (fun d hd => hP d hd.quiet) cfg x

/-- **What a command does outside the game state leaves the game state alone.**  They are steps on
the cache, the database, the metrics and the clocks. -/
theorem Command.effects_quiet (cfg : Config) (c : Command) (x : c.call.Ans) :
    (c.effects cfg x).Calls Call.Quiet :=
  c.effects_calls (fun _ hc _ => hc) cfg x

theorem countBuckets_calls {P : Call → Prop} (hP : ∀ c, P (.fetchAdd c)) (duration : Int)
    (buckets : List (Fin 14 × Int)) :
    (MetricsRegistry.countBuckets duration buckets).Calls P := by
  induction buckets with
  | nil => trivial
  | cons b rest ih =>
    exact (when_calls (invoke_calls (hP _))).bind fun _ => ih

theorem recordRequestLatency_calls {P : Call → Prop} (hP : ∀ c, P (.fetchAdd c))
    (hlatency : ∀ d, P (.addLatency d)) (duration : Int) :
    (MetricsRegistry.recordRequestLatency duration).Calls P :=
  ⟨hP _, fun _ => ⟨hlatency _, fun _ => (countBuckets_calls hP _ _).bind fun _ =>
    ⟨hP _, fun _ => trivial⟩⟩⟩

theorem toJson_calls {P : Call → Prop} (hload : ∀ c, P (.load c)) (hplayers : P .loadActivePlayers)
    (hlatencies : P .loadLatencies) (fp : Doubles) : (MetricsRegistry.toJson fp).Calls P :=
  ⟨hload _, fun _ => ⟨hload _, fun _ => ⟨hlatencies, fun _ => ⟨hplayers, fun _ => ⟨hload _,
    fun _ => ⟨hload _, fun _ => ⟨hload _, fun _ => ⟨hload _, fun _ => ⟨hload _,
      fun _ => trivial⟩⟩⟩⟩⟩⟩⟩⟩⟩

theorem readSession_calls {P : Call → Prop} (hhit : P (.fetchAdd .redisCacheHits))
    (hmiss : P (.fetchAdd .redisCacheMisses)) (r : Except Unit (Option Bytes)) :
    (CacheManager.readSession r).Calls P := by
  unfold CacheManager.readSession
  split
  · trivial
  split
  · exact ⟨hhit, fun _ => trivial⟩
  · exact ⟨hmiss, fun _ => trivial⟩

theorem orInternalError_calls {P : Call → Prop} (r : Except Unit Json) :
    (orInternalError r).Calls P := by
  cases r <;> trivial

theorem stateResponse_calls {P : Call → Prop} (hsnapshot : P .snapshot) :
    stateResponse.Calls P :=
  ⟨hsnapshot, fun _ => trivial⟩

theorem stateHandler_calls {P : Call → Prop} (hhit : P (.fetchAdd .redisCacheHits))
    (hmiss : P (.fetchAdd .redisCacheMisses)) (hsnapshot : P .snapshot)
    (hget : ∀ key, P (.redisGet key)) (cfg : Config) (playerId : Int32) (present : Bool) :
    (Request.stateHandler cfg playerId present).Calls P := by
  cases present with
  | false => trivial
  | true =>
    rw [Request.stateHandler]
    split
    · refine Program.Calls.bind ⟨hget _, readSession_calls hhit hmiss⟩ fun session => ?_
      cases session with
      | error _ => trivial
      | ok _ => exact stateResponse_calls hsnapshot
    · exact stateResponse_calls hsnapshot

/-- Steps that a request makes that is not a command: looking at things and counting. -/
def Call.Looks : Call → Prop
  | .hasPlayer _ | .snapshot | .load _ | .loadActivePlayers | .loadLatencies | .fetchAdd _
  | .redisGet _ => True
  | _ => False

theorem serve_calls {P : Call → Prop} (hP : ∀ c : Call, c.Looks → c.Uncounted → P c)
    (cfg : Config) (fp : Doubles) {q : Request} (hq : ∀ c, q ≠ .command c) :
    (q.serve cfg fp).Calls P := by
  cases q with
  | refused message => trivial
  | command c => exact absurd rfl (hq c)
  | getState playerId =>
    cases playerId with
    | none => exact (stateResponse_calls (hP _ trivial trivial)).bind orInternalError_calls
    | some playerId =>
      exact ⟨hP _ trivial trivial, fun present =>
        (stateHandler_calls (hP _ trivial rfl) (hP _ trivial rfl) (hP _ trivial trivial)
          (fun _ => hP _ trivial trivial) cfg playerId present).bind orInternalError_calls⟩
  | getMetrics =>
    exact (toJson_calls (fun _ => hP _ trivial trivial) (hP _ trivial trivial)
      (hP _ trivial trivial) fp).bind fun _ => trivial

/-- **A request that is not a command only looks.**  It may ask whether a player is there, take a
snapshot, load counters and read from the cache. -/
theorem serve_looks (cfg : Config) (fp : Doubles) {q : Request} (hq : ∀ c, q ≠ .command c) :
    (q.serve cfg fp).Calls Call.Looks :=
  serve_calls (fun _ hc _ => hc) cfg fp hq

/-! ## What a command does to the game state -/

/-- `recordEvent`, with nothing in between its two steps. -/
def GameState.record (playerId : Int32) (eventType data : Bytes) (timestamp : Int)
    (g : GameState) : GameState :=
  g.fetchAddEventId.2.pushEvent ⟨g.nextEventId, playerId, eventType, data, timestamp⟩

theorem map_eq_ok {α β ε : Type} {f : α → β} {r : Except ε α} {b : β} (h : r.map f = .ok b) :
    ∃ a, r = .ok a ∧ f a = b := by
  cases r with
  | error err => cases h
  | ok a => exact ⟨a, rfl, Except.ok.inj h⟩

theorem map_eq_error {α β ε : Type} {f : α → β} {r : Except ε α} {err : ε}
    (h : r.map f = .error err) : r = .error err := by
  cases r with
  | error err' => exact congrArg Except.error (Except.error.inj h)
  | ok a => cases h

/-- The event log is written by `recordEvent` alone. -/
def GameState.log (g : GameState) : List GameEvent × Nat := (g.events, g.nextEventId)

theorem GameState.log_finishIfEmpty (g : GameState) : g.finishIfEmpty.log = g.log := by
  unfold finishIfEmpty
  split <;> rfl

theorem GameState.log_addPlayer {g g' : GameState} {playerId : Int32} {now : Nat → Int}
    (h : g.addPlayer playerId now = .ok g') : g'.log = g.log := by
  obtain ⟨-, rfl⟩ := addPlayer_inv h
  rfl

theorem GameState.log_removePlayer {g : GameState} {playerId : Int32} {r : Int32 × GameState}
    (h : g.removePlayer playerId = .ok r) : r.2.log = g.log := by
  obtain ⟨p, -, rfl⟩ := removePlayer_inv h
  exact log_finishIfEmpty _

theorem GameState.log_modifyPlayer {g g' : GameState} {playerId : Int32}
    {f : PlayerState → PlayerState} (h : g.modifyPlayer playerId f = .ok g') : g'.log = g.log := by
  obtain ⟨p, -, rfl⟩ := modifyPlayer_inv h
  rfl

theorem GameState.log_attackPlayer {g : GameState} {attackerId targetId : Int32}
    {r : AttackResult × GameState} (h : g.attackPlayer attackerId targetId = .ok r) :
    r.2.log = g.log := by
  obtain ⟨attacker, target, -, -, -, rfl⟩ := attackPlayer_inv h
  rfl

/-- Steps that are not part of `recordEvent`.  None of them changes the events or the next id. -/
def Call.Unlogged : Call → Prop
  | .fetchAddEventId | .pushEvent _ => False
  | _ => True

theorem World.log_attempt {α : Type} {w : World} {r : Except Bytes (α × GameState)}
    (h : ∀ r', r = .ok r' → r'.2.log = w.game.log) : (w.attempt r).2.game.log = w.game.log := by
  cases r with
  | error err => rfl
  | ok r => exact h r rfl

theorem World.log_attemptUnit {w : World} {r : Except Bytes GameState}
    (h : ∀ g, r = .ok g → g.log = w.game.log) : (w.attemptUnit r).2.game.log = w.game.log := by
  cases r with
  | error err => rfl
  | ok g => exact h g rfl

/-- **No other step writes to the log.**  The methods of the game change players, status and kills,
and the two halves of `recordEvent` are excluded. -/
theorem Call.exec_unlogged (fp : Doubles) {c : Call} (hc : c.Unlogged) (e : Env) (w : World) :
    (c.exec fp e w).2.game.log = w.game.log := by
  cases c with
  | addPlayer => exact World.log_attemptUnit fun _ => GameState.log_addPlayer
  | removePlayer => exact World.log_attempt fun _ => GameState.log_removePlayer
  | movePlayer => exact World.log_attemptUnit fun _ => GameState.log_modifyPlayer
  | attackPlayer => exact World.log_attempt fun _ => GameState.log_attackPlayer
  | setScore => exact World.log_attemptUnit fun _ => GameState.log_modifyPlayer
  | fetchAddEventId | pushEvent => exact hc.elim
  | _ => rfl

/-- Clamping twice is clamping once. -/
theorem clamp_clamp (v : Int32) : clamp (clamp v mapMin mapMax) mapMin mapMax =
    clamp v mapMin mapMax := by
  simp only [clamp, mapMin, mapMax]
  grind

namespace Command

/-- The deciding step of a command on a game state: the text of a refusal, or the data of the event,
the response and the new state. -/
def apply (now : Nat → Int) (g : GameState) :
    Command → Except Bytes ((Bytes × Json) × GameState)
  | join playerId => (g.addPlayer playerId now).map fun g' =>
    ((ascii "\x7b\x7d", joinResponse playerId), g')
  | move playerId x y =>
    (g.movePlayer playerId (clamp x mapMin mapMax) (clamp y mapMin mapMax)).map fun g' =>
      ((moveData (clamp x mapMin mapMax) (clamp y mapMin mapMax),
        moveResponse playerId (clamp x mapMin mapMax) (clamp y mapMin mapMax)), g')
  | attack playerId targetId => (g.attackPlayer playerId targetId).map fun r =>
    ((attackData targetId r.1.damage r.1.targetEliminated,
      attackResponse playerId targetId r.1), r.2)
  | chat playerId message =>
    if g.hasPlayer playerId then .ok ((chatData message, chatResponse playerId message), g)
    else .error (GameState.notInGame playerId)
  | updateScore playerId score => (g.setScore playerId score).map fun g' =>
    ((scoreData score, updateScoreResponse playerId score), g')
  | leave playerId => (g.removePlayer playerId).map fun r =>
    ((leaveData r.1, leaveResponse playerId r.1), r.2)

/-- The same on the arena. -/
noncomputable def rule (a : Arena) : Command → Except Bytes ((Bytes × Json) × Arena)
  | join playerId => (a.addPlayer playerId).map fun a' =>
    ((ascii "\x7b\x7d", joinResponse playerId), a')
  | move playerId x y =>
    (a.movePlayer playerId (clamp x mapMin mapMax) (clamp y mapMin mapMax)).map fun a' =>
      ((moveData (clamp x mapMin mapMax) (clamp y mapMin mapMax),
        moveResponse playerId (clamp x mapMin mapMax) (clamp y mapMin mapMax)), a')
  | attack playerId targetId => (a.attackPlayer playerId targetId).map fun r =>
    ((attackData targetId r.1.damage r.1.targetEliminated,
      attackResponse playerId targetId r.1), r.2)
  | chat playerId message =>
    if a.player playerId ≠ none then .ok ((chatData message, chatResponse playerId message), a)
    else .error (GameState.notInGame playerId)
  | updateScore playerId score => (a.setScore playerId score).map fun a' =>
    ((scoreData score, updateScoreResponse playerId score), a')
  | leave playerId => (a.removePlayer playerId).map fun r =>
    ((leaveData r.1, leaveResponse playerId r.1), r.2)

/-- **A command goes by the rules of the arena.**  The method that decides refuses exactly when the
rule does, with the same text, and what it leaves is seen from the arena as what the rule leaves. -/
theorem arena_apply (now : Nat → Int) (g : GameState) (c : Command) :
    (c.apply now g).map (Prod.map id GameState.arena) = c.rule g.arena := by
  cases c with
  | join playerId =>
    rw [rule, ← GameState.arena_addPlayer playerId now, apply]
    cases g.addPlayer playerId now <;> rfl
  | move playerId x y =>
    rw [rule, ← GameState.arena_movePlayer, apply]
    cases g.movePlayer playerId (clamp x mapMin mapMax) (clamp y mapMin mapMax) <;> rfl
  | attack playerId targetId =>
    rw [rule, ← GameState.arena_attackPlayer, apply]
    cases g.attackPlayer playerId targetId <;> rfl
  | chat playerId message =>
    have hpresent : g.hasPlayer playerId = true ↔ g.arena.player playerId ≠ none := by
      simp [GameState.hasPlayer, ← AList.lookup_isSome, Option.isSome_iff_ne_none]
    rw [rule, apply]
    by_cases h : g.hasPlayer playerId = true
    · rw [if_pos h, if_pos (hpresent.mp h)]
      rfl
    · rw [if_neg h, if_neg fun h' => h (hpresent.mpr h')]
      rfl
  | updateScore playerId score =>
    rw [rule, ← GameState.arena_setScore, apply]
    cases g.setScore playerId score <;> rfl
  | leave playerId =>
    rw [rule, ← GameState.arena_removePlayer, apply]
    cases g.removePlayer playerId <;> rfl

/-- **A command is carried out**, by the rules of the arena: who must have been there, what is
answered and recorded, and how the players stand afterwards. -/
inductive CarriedOut (a : Arena) : Command → Bytes × Json → Arena → Prop where
  | join (playerId : Int32) (absent : a.player playerId = none) :
      CarriedOut a (join playerId) (ascii "\x7b\x7d", joinResponse playerId)
        { a with
          player := Function.update a.player playerId (some .initial)
          status := if a.status = .waiting then .active else a.status }
  | move (playerId x y : Int32) (s : Standing) (present : a.player playerId = some s) :
      CarriedOut a (move playerId x y)
        (moveData (clamp x mapMin mapMax) (clamp y mapMin mapMax),
          moveResponse playerId (clamp x mapMin mapMax) (clamp y mapMin mapMax))
        { a with
          player := Function.update a.player playerId
            (some { s with x := clamp x mapMin mapMax, y := clamp y mapMin mapMax }) }
  | attack (playerId targetId : Int32) (attacker target : Standing) (ne : playerId ≠ targetId)
      (present : a.player playerId = some attacker)
      (targetPresent : a.player targetId = some target) :
      CarriedOut a (attack playerId targetId)
        (attackData targetId GameState.attackDamage (Arena.Lethal target),
          attackResponse playerId targetId ⟨GameState.attackDamage, Arena.healthAfter target,
            (Arena.rewarded attacker target).score, Arena.Lethal target⟩)
        { a with
          player := Function.update
            (Function.update a.player playerId (some (Arena.rewarded attacker target)))
            targetId (Arena.struck target)
          totalKills := a.totalKills + if Arena.Lethal target then 1 else 0 }
  | chat (playerId : Int32) (message : Bytes) (present : a.player playerId ≠ none) :
      CarriedOut a (chat playerId message) (chatData message, chatResponse playerId message) a
  | updateScore (playerId score : Int32) (s : Standing) (present : a.player playerId = some s) :
      CarriedOut a (updateScore playerId score)
        (scoreData score, updateScoreResponse playerId score)
        { a with player := Function.update a.player playerId (some { s with score }) }
  | leave (playerId : Int32) (s : Standing) (present : a.player playerId = some s) :
      CarriedOut a (leave playerId) (leaveData s.score, leaveResponse playerId s.score)
        (Arena.finishIfEmpty { a with player := Function.update a.player playerId none })

theorem carriedOut_of_rule {c : Command} {a a' : Arena} {out : Bytes × Json}
    (h : c.rule a = .ok (out, a')) : CarriedOut a c out a' := by
  cases c with
  | join playerId =>
    obtain ⟨a₁, hadd, heq⟩ := map_eq_ok h
    cases heq
    obtain ⟨habsent, rfl⟩ := Arena.addPlayer_inv hadd
    exact .join playerId habsent
  | move playerId x y =>
    obtain ⟨a₁, hmove, heq⟩ := map_eq_ok h
    cases heq
    obtain ⟨s, hs, rfl⟩ := Arena.modifyPlayer_inv hmove
    rw [clamp_clamp, clamp_clamp]
    exact .move playerId x y s hs
  | attack playerId targetId =>
    obtain ⟨r, hattack, heq⟩ := map_eq_ok h
    cases heq
    obtain ⟨attacker, target, hne, hattacker, htarget, rfl⟩ := Arena.attackPlayer_inv hattack
    exact .attack playerId targetId attacker target hne hattacker htarget
  | chat playerId message =>
    rw [rule] at h
    split at h
    · rename_i hpresent
      cases h
      exact .chat playerId message hpresent
    · cases h
  | updateScore playerId score =>
    obtain ⟨a₁, hset, heq⟩ := map_eq_ok h
    cases heq
    obtain ⟨s, hs, rfl⟩ := Arena.modifyPlayer_inv hset
    exact .updateScore playerId score s hs
  | leave playerId =>
    obtain ⟨r, hremove, heq⟩ := map_eq_ok h
    cases heq
    obtain ⟨s, hs, rfl⟩ := Arena.removePlayer_inv hremove
    exact .leave playerId s hs

/-- The methods that decide about commands leave the log alone. -/
theorem log_apply {now : Nat → Int} {g g' : GameState} {c : Command} {out : Bytes × Json}
    (h : c.apply now g = .ok (out, g')) : g'.log = g.log := by
  cases c with
  | join playerId =>
    obtain ⟨g₁, hadd, heq⟩ := map_eq_ok h
    cases heq
    exact GameState.log_addPlayer hadd
  | move playerId x y =>
    obtain ⟨g₁, hmove, heq⟩ := map_eq_ok h
    cases heq
    exact GameState.log_modifyPlayer hmove
  | attack playerId targetId =>
    obtain ⟨r, hattack, heq⟩ := map_eq_ok h
    cases heq
    exact GameState.log_attackPlayer hattack
  | chat playerId message =>
    rw [apply] at h
    split at h
    · cases h
      rfl
    · cases h
  | updateScore playerId score =>
    obtain ⟨g₁, hset, heq⟩ := map_eq_ok h
    cases heq
    exact GameState.log_modifyPlayer hset
  | leave playerId =>
    obtain ⟨r, hremove, heq⟩ := map_eq_ok h
    cases heq
    exact GameState.log_removePlayer hremove

/-- The deciding step in the world is `apply` on the game state in it. -/
theorem exec_call (fp : Doubles) (c : Command) (e : Env) (w : World) :
    match c.apply e.now w.game with
    | .error err => c.outcome (c.call.exec fp e w).1 = .error err ∧ (c.call.exec fp e w).2 = w
    | .ok (out, g) => c.outcome (c.call.exec fp e w).1 = .ok out ∧
        (c.call.exec fp e w).2 = { w with game := g } := by
  cases c with
  | join playerId =>
    simp only [apply, Call.exec, World.attemptUnit]
    cases w.game.addPlayer playerId e.now <;> exact ⟨rfl, rfl⟩
  | move playerId x y =>
    simp only [apply, Call.exec, World.attemptUnit]
    cases w.game.movePlayer playerId (clamp x mapMin mapMax) (clamp y mapMin mapMax) <;>
      exact ⟨rfl, rfl⟩
  | attack playerId targetId =>
    simp only [apply, Call.exec]
    cases w.game.attackPlayer playerId targetId <;> exact ⟨rfl, rfl⟩
  | chat playerId message =>
    simp only [apply, Call.exec]
    cases h : w.game.hasPlayer playerId <;> simp [outcome]
  | updateScore playerId score =>
    simp only [apply, Call.exec, World.attemptUnit]
    cases w.game.setScore playerId score <;> exact ⟨rfl, rfl⟩
  | leave playerId =>
    simp only [apply, Call.exec]
    cases w.game.removePlayer playerId <;> exact ⟨rfl, rfl⟩

end Command

/-! ## Responses with status `ok` -/

theorem isOk_obj (rest : List (String × Json)) :
    isOk (Json.obj (("status", .string (ascii "ok")) :: rest)) = true := by
  simp [isOk, Json.stringValue]

theorem isOk_set {j : Json} {key : String} {value : Json} (hkey : ascii "status" ≠ ascii key)
    (hj : isOk j = true) : isOk (j.set (ascii key) value) = true := by
  cases j with
  | object fields =>
    have hstatus : ((Json.object fields).set (ascii key) value).stringValue (ascii "status") [] =
        (Json.object fields).stringValue (ascii "status") [] := by
      rw [Json.stringValue, Json.stringValue, Json.set, Json.field?, Json.findField_setField,
        if_neg hkey, Json.field?]
    rw [isOk, hstatus]
    exact hj
  | _ => exact hj

theorem isOk_attackResponse (playerId targetId : Int32) (result : AttackResult) :
    isOk (attackResponse playerId targetId result) = true := by
  have hkey : ascii "status" ≠ ascii "eliminated" := by decide
  unfold attackResponse
  by_cases heliminated : result.targetEliminated = true
  · rw [if_pos heliminated]
    exact isOk_set hkey (isOk_obj _)
  · rw [if_neg heliminated]
    exact isOk_obj _

theorem isOk_succeed (action : String) (fields : List (String × Json)) :
    isOk (succeed action (Json.obj fields)) = true := by
  have hset : isOk ((Json.obj fields).set (ascii "status") (.string (ascii "ok"))) = true := by
    simp [isOk, Json.stringValue, Json.field?_set_obj]
  have hkey : ascii "status" ≠ ascii "action" := by decide
  exact isOk_set hkey hset

/-- A command that is carried out is answered with `ok`. -/
theorem Command.isOk_of_apply {now : Nat → Int} {g : GameState} {c : Command}
    {out : (Bytes × Json) × GameState} (h : c.apply now g = .ok out) : isOk out.1.2 = true := by
  cases c with
  | chat playerId message =>
    rw [apply] at h
    split at h
    · cases h
      exact isOk_obj _
    · cases h
  | attack playerId targetId =>
    obtain ⟨r, -, rfl⟩ := map_eq_ok h
    exact isOk_attackResponse _ _ _
  | _ =>
    obtain ⟨r, -, rfl⟩ := map_eq_ok h
    exact isOk_obj _

/-! ## Without the network -/

theorem sends_connect (c : RedisConnection) : c.connect.2.sends = c.sends := by
  unfold RedisConnection.connect
  split
  · rfl
  split
  · rfl
  · rfl

/-- A command that cannot be sent has no reply. -/
theorem get_of_sends {c : RedisConnection} (hc : c.sends = []) (key : Bytes) :
    (RedisConnection.get key c).1 = .ok none := by
  have hsends := sends_connect c
  rw [hc] at hsends
  rw [RedisConnection.get, RedisConnection.sendCommand]
  rcases hconnect : c.connect with ⟨ok, c'⟩
  rw [hconnect] at hsends
  cases ok with
  | false => rfl
  | true =>
    have hnone : c'.sends.head? = none := by
      rw [hsends]
      rfl
    simp only [hnone, reduceCtorEq, if_false]

/-! ## One request -/

section Serve

variable {ε : Type} {env : ε → Env} {cfg : Config} {fp : Doubles}

theorem record_runs {w w' : World} {playerId : Int32} {eventType data : Bytes} {u : Unit}
    (h : Runs (Call.execVia fp env) (recordEvent playerId eventType data) w u w') :
    ∃ timestamp, w' = { w with game := w.game.record playerId eventType data timestamp } := by
  obtain ⟨e₁, h⟩ := runs_call.mp h
  obtain ⟨e₂, h⟩ := runs_call.mp h
  obtain ⟨e₃, h⟩ := runs_call.mp h
  exact ⟨_, (runs_ret.mp h).2⟩

/-- **The ways a command can go.**  It is refused and nothing changes; or its deciding step
succeeds, its effects are carried out and one event is recorded. -/
theorem handler_runs {c : Command} {w w' : World} {r : Json}
    (h : Runs (Call.execVia fp env) (c.handler cfg) w r w') :
    (∃ e err, c.apply (env e).now w.game = .error err ∧ r = errorResponse err ∧ w' = w) ∨
      ∃ e data g x w₁ timestamp, c.apply (env e).now w.game = .ok ((data, r), g) ∧
        c.outcome x = .ok (data, r) ∧
        Runs (Call.execVia fp env) (c.effects cfg x) { w with game := g } () w₁ ∧ w₁.game = g ∧
        w' = { w₁ with game := g.record c.playerId (ascii c.action.name) data timestamp } := by
  obtain ⟨e, h⟩ := runs_call.mp h
  have hcall := c.exec_call fp (env e) w
  revert hcall
  cases happly : c.apply (env e).now w.game with
  | error err =>
    rintro ⟨hout, hw⟩
    change Runs (Call.execVia fp env) (c.finish cfg (c.call.exec fp (env e) w).1
      (c.outcome (c.call.exec fp (env e) w).1)) (c.call.exec fp (env e) w).2 r w' at h
    rw [hout] at h
    obtain ⟨rfl, hw'⟩ := runs_ret.mp h
    exact Or.inl ⟨e, err, happly, rfl, hw'.trans hw⟩
  | ok out =>
    obtain ⟨⟨data, response⟩, g⟩ := out
    rintro ⟨hout, hw⟩
    change Runs (Call.execVia fp env) (c.finish cfg (c.call.exec fp (env e) w).1
      (c.outcome (c.call.exec fp (env e) w).1)) (c.call.exec fp (env e) w).2 r w' at h
    rw [hout] at h
    obtain ⟨u, w₁, heffects, h⟩ := runs_bind.mp h
    obtain ⟨u', w₂, hrecord, h⟩ := runs_bind.mp h
    obtain ⟨rfl, rfl⟩ := runs_ret.mp h
    obtain ⟨timestamp, rfl⟩ := record_runs hrecord
    rw [hw] at heffects
    have hgame : w₁.game = g :=
      Program.Calls.runs_eq World.game
        (fun c e w hc => Call.exec_quiet fp hc (env e) w) (c.effects_quiet cfg _) heffects
    exact Or.inr ⟨e, data, g, _, w₁, timestamp, happly, hout, heffects, hgame, by rw [hgame]⟩

/-- Some reply to a `GET` makes the Redis client throw. -/
def Unreadable (env : ε → Env) : Prop :=
  ∃ (e : ε) (key : Bytes) (pool : RedisPool),
    (pool.withConnection (RedisConnection.get key) (env e).net).1 = .error ()

/-- Without a reply to read there is none that cannot be read. -/
theorem readable_of_sends (h : ∀ e, (env e).net.sends = []) : ¬ Unreadable env := by
  rintro ⟨e, key, pool, hthrow⟩
  unfold RedisPool.withConnection at hthrow
  simp only at hthrow
  split at hthrow
  · rw [get_of_sends (by exact h e)] at hthrow
    cases hthrow
  · rw [get_of_sends (by exact (sends_connect _).trans (h e))] at hthrow
    cases hthrow

/-- What the dump of the metrics is made from. -/
def IsExport (fp : Doubles) (m : Json) : Prop :=
  ∃ total count sum activePlayers successful failed hits misses operations,
    m = MetricsRegistry.exported fp total count sum activePlayers successful failed hits misses
      operations

/-- **What serving a request does**: the request, the game state before, the response, the game
state after. -/
inductive Responds (fp : Doubles) (unreadable : Prop) :
    Request → GameState → Json → GameState → Prop where
  | refused (message : Bytes) (g : GameState) :
      Responds fp unreadable (.refused message) g (errorResponse message) g
  | rejected (c : Command) (now : Nat → Int) (g : GameState) (err : Bytes)
      (apply : c.apply now g = .error err) :
      Responds fp unreadable (.command c) g (errorResponse err) g
  | done (c : Command) (now : Nat → Int) (g g' : GameState) (data : Bytes) (response : Json)
      (timestamp : Int) (apply : c.apply now g = .ok ((data, response), g')) :
      Responds fp unreadable (.command c) g response
        (g'.record c.playerId (ascii c.action.name) data timestamp)
  | absent (playerId : Int32) (g : GameState) (absent : playerId ∉ g.players) :
      Responds fp unreadable (.getState (some playerId)) g
        (errorResponse (GameState.notInGame playerId)) g
  | unread (playerId : Int32) (g : GameState) (present : playerId ∈ g.players)
      (bad : unreadable) :
      Responds fp unreadable (.getState (some playerId)) g
        (errorResponse (ascii "internal server error")) g
  | state (playerId : Option Int32) (now : Nat → Int) (g : GameState)
      (present : ∀ p ∈ playerId, p ∈ g.players) :
      Responds fp unreadable (.getState playerId) g (succeed "GET_STATE" (g.snapshot fp now)) g
  | metrics (m : Json) (g : GameState) (m_export : IsExport fp m) :
      Responds fp unreadable .getMetrics g (succeed "GET_METRICS" m) g

theorem toJson_runs {w w' : World} {m : Json}
    (h : Runs (Call.execVia fp env) (MetricsRegistry.toJson fp) w m w') :
    IsExport fp m ∧ w'.game = w.game ∧ w'.stored = w.stored := by
  have hexport : (MetricsRegistry.toJson fp).Returns (IsExport fp) :=
    fun total count sum activePlayers successful failed hits misses operations =>
      ⟨total, count, sum, activePlayers, successful, failed, hits, misses, operations, rfl⟩
  refine ⟨hexport.runs h, ?_, ?_⟩
  · exact Program.Calls.runs_eq World.game
      (fun c e w hc => Call.exec_quiet fp hc (env e) w)
      (toJson_calls (fun _ => trivial) trivial trivial fp) h
  · exact Program.Calls.runs_eq World.stored
      (fun c e w hc => Call.exec_volatile fp hc (env e) w)
      (toJson_calls (fun _ => trivial) trivial trivial fp) h

theorem stateResponse_runs {w w' : World} {r : Except Unit Json}
    (h : Runs (Call.execVia fp env) stateResponse w r w') :
    w' = w ∧ ∃ e, r = .ok (succeed "GET_STATE" (w.game.snapshot fp (env e).now)) := by
  obtain ⟨e, h⟩ := runs_call.mp h
  obtain ⟨rfl, rfl⟩ := runs_ret.mp h
  exact ⟨rfl, e, rfl⟩

/-- Looking up the session changes a counter and the pool, and throws only if the reply cannot be
read. -/
theorem getPlayerSession_runs {w w' : World} {playerId : Int32}
    {r : Except Unit (Option Json)}
    (h : Runs (Call.execVia fp env) (CacheManager.getPlayerSession playerId) w r w') :
    w'.game = w.game ∧ w'.stored = w.stored ∧ (r = .error () → Unreadable env) := by
  obtain ⟨e, h⟩ := runs_call.mp h
  change Runs (Call.execVia fp env) (CacheManager.readSession
    (w.pool.withConnection (RedisConnection.get (CacheManager.sessionKey playerId))
      (env e).net).1) _ r w' at h
  cases hreply : (w.pool.withConnection (RedisConnection.get
      (CacheManager.sessionKey playerId)) (env e).net).1 with
  | error u =>
    rw [hreply] at h
    obtain ⟨rfl, rfl⟩ := runs_ret.mp h
    exact ⟨rfl, rfl, fun _ => ⟨e, _, w.pool, hreply⟩⟩
  | ok value =>
    rw [hreply, CacheManager.readSession] at h
    cases hparse : value.bind Parser.parse with
    | none =>
      rw [hparse] at h
      obtain ⟨e', h⟩ := runs_call.mp h
      obtain ⟨rfl, rfl⟩ := runs_ret.mp h
      exact ⟨rfl, rfl, fun hno => by cases hno⟩
    | some session =>
      rw [hparse] at h
      obtain ⟨e', h⟩ := runs_call.mp h
      obtain ⟨rfl, rfl⟩ := runs_ret.mp h
      exact ⟨rfl, rfl, fun hno => by cases hno⟩

theorem stateHandler_runs {w w' : World} {playerId : Int32} {r : Except Unit Json}
    (h : Runs (Call.execVia fp env) (Request.stateHandler cfg playerId true) w r w') :
    w'.game = w.game ∧ w'.stored = w.stored ∧
      (r = .error () ∧ Unreadable env ∨
        ∃ e, r = .ok (succeed "GET_STATE" (w.game.snapshot fp (env e).now))) := by
  rw [Request.stateHandler] at h
  split at h
  · obtain ⟨session, w₁, hlookup, h⟩ := runs_bind.mp h
    obtain ⟨hgame, hstored, hthrow⟩ := getPlayerSession_runs hlookup
    cases session with
    | error u =>
      obtain ⟨rfl, rfl⟩ := runs_ret.mp h
      exact ⟨hgame, hstored, Or.inl ⟨rfl, hthrow rfl⟩⟩
    | ok found =>
      obtain ⟨rfl, e, rfl⟩ := stateResponse_runs h
      rw [hgame]
      exact ⟨rfl, hstored, Or.inr ⟨e, rfl⟩⟩
  · obtain ⟨rfl, hstate⟩ := stateResponse_runs h
    exact ⟨rfl, rfl, Or.inr hstate⟩

/-- **The answers to `GET_STATE`**: the player is not there; the reply of Redis cannot be read; or
the state as it is. -/
theorem getState_runs {w w' : World} {playerId : Option Int32} {r : Json}
    (h : Runs (Call.execVia fp env) ((Request.getState playerId).serve cfg fp) w r w') :
    w'.game = w.game ∧ w'.stored = w.stored ∧
      ((∃ p, playerId = some p ∧ p ∉ w.game.players ∧ r = errorResponse (GameState.notInGame p)) ∨
        (∃ p, playerId = some p ∧ p ∈ w.game.players ∧ Unreadable env ∧
          r = errorResponse (ascii "internal server error")) ∨
        (∀ p ∈ playerId, p ∈ w.game.players) ∧
          ∃ e, r = succeed "GET_STATE" (w.game.snapshot fp (env e).now)) := by
  cases playerId with
  | none =>
    obtain ⟨s, w₁, hstate, h⟩ := runs_bind.mp h
    obtain ⟨rfl, e, rfl⟩ := stateResponse_runs hstate
    obtain ⟨rfl, rfl⟩ := runs_ret.mp h
    exact ⟨rfl, rfl, Or.inr (Or.inr ⟨fun _ hno => (by cases hno), e, rfl⟩)⟩
  | some playerId =>
    obtain ⟨e, h⟩ := runs_call.mp h
    change Runs (Call.execVia fp env) (do
      let r ← Request.stateHandler cfg playerId (w.game.hasPlayer playerId)
      orInternalError r) w r w' at h
    obtain ⟨s, w₁, hstate, hresponse⟩ := runs_bind.mp h
    cases hpresent : w.game.hasPlayer playerId with
    | false =>
      rw [hpresent] at hstate
      obtain ⟨rfl, rfl⟩ := runs_ret.mp hstate
      obtain ⟨rfl, rfl⟩ := runs_ret.mp hresponse
      exact ⟨rfl, rfl, Or.inl ⟨playerId, rfl, of_decide_eq_false hpresent, rfl⟩⟩
    | true =>
      rw [hpresent] at hstate
      have hmem : playerId ∈ w.game.players := of_decide_eq_true hpresent
      obtain ⟨hgame, hstored, ⟨rfl, hbad⟩ | ⟨e, rfl⟩⟩ := stateHandler_runs hstate
      · obtain ⟨rfl, rfl⟩ := runs_ret.mp hresponse
        exact ⟨hgame, hstored, Or.inr (Or.inl ⟨playerId, rfl, hmem, hbad, rfl⟩)⟩
      · obtain ⟨rfl, rfl⟩ := runs_ret.mp hresponse
        refine ⟨hgame, hstored, Or.inr (Or.inr ⟨fun p hp => ?_, e, rfl⟩)⟩
        cases hp
        exact hmem

/-- **Serving a request follows the rules, and stores nothing unless the answer is `ok`.**  What a
handler does after its step on the game changes only what the rules leave out. -/
theorem serve_responds {q : Request} {w w' : World} {r : Json}
    (h : Runs (Call.execVia fp env) (q.serve cfg fp) w r w') :
    Responds fp (Unreadable env) q w.game r w'.game ∧
      (isOk r = false → w'.stored = w.stored) := by
  cases q with
  | refused message =>
    obtain ⟨rfl, rfl⟩ := runs_ret.mp h
    exact ⟨.refused message _, fun _ => rfl⟩
  | command c =>
    rcases handler_runs h with ⟨e, err, happly, rfl, rfl⟩ |
      ⟨e, data, g, x, w₁, timestamp, happly, -, -, -, rfl⟩
    · exact ⟨.rejected c _ _ err happly, fun _ => rfl⟩
    · refine ⟨.done c _ _ g data r timestamp happly, fun hno => ?_⟩
      rw [Command.isOk_of_apply happly] at hno
      cases hno
  | getState playerId =>
    obtain ⟨hgame, hstored, hshown⟩ := getState_runs h
    refine ⟨?_, fun _ => hstored⟩
    rw [hgame]
    rcases hshown with ⟨p, rfl, habsent, rfl⟩ | ⟨p, rfl, hpresent, hbad, rfl⟩ | ⟨hpresent, e, rfl⟩
    · exact .absent p _ habsent
    · exact .unread p _ hpresent hbad
    · exact .state playerId _ _ hpresent
  | getMetrics =>
    obtain ⟨m, w₁, hm, h⟩ := runs_bind.mp h
    obtain ⟨rfl, rfl⟩ := runs_ret.mp h
    obtain ⟨hexport, hgame, hstored⟩ := toJson_runs hm
    rw [hgame]
    exact ⟨.metrics m _ hexport, fun _ => hstored⟩

/-- Two worlds that differ only in what has been counted and measured. -/
def World.Recounted (w w' : World) : Prop :=
  ∃ metrics, w' = { w with metrics } ∧ metrics.activePlayers = w.metrics.activePlayers

theorem World.Recounted.refl (w : World) : w.Recounted w := ⟨_, rfl, rfl⟩

theorem World.Recounted.trans {w₁ w₂ w₃ : World} (h : w₁.Recounted w₂) (h' : w₂.Recounted w₃) :
    w₁.Recounted w₃ := by
  obtain ⟨m, rfl, hm⟩ := h
  obtain ⟨m', rfl, hm'⟩ := h'
  exact ⟨m', rfl, hm'.trans hm⟩

/-- Steps that count and measure.  A world in which such steps have been made differs from the old
one in its metrics only. -/
def Call.Counts : Call → Prop
  | .fetchAdd _ | .addLatency _ | .clock => True
  | _ => False

theorem Call.exec_counts (fp : Doubles) {c : Call} (hc : c.Counts) (e : Env) (w : World) :
    w.Recounted (c.exec fp e w).2 := by
  cases c with
  | fetchAdd => exact ⟨_, rfl, rfl⟩
  | addLatency => exact ⟨_, rfl, rfl⟩
  | clock => exact .refl w
  | _ => exact hc.elim

theorem recounted_runs {α : Type} {p : Handler α} (hp : p.Calls Call.Counts) {w w' : World} {a : α}
    (h : Runs (Call.execVia fp env) p w a w') : w.Recounted w' :=
  Program.Calls.runs w.Recounted
    (fun _ e v hc hv => hv.trans (Call.exec_counts fp hc (env e) v)) hp (.refl w) h

/-- **`RequestHandler::handle` decodes the payload and serves the request; the rest is counting and
measuring.**  So a run of the handler is a run of the serving with worlds that differ from its own
in the counters only. -/
theorem reply_serves {rawJson : Bytes} {w w' : World} {r : Json}
    (h : Runs (Call.execVia fp env) (reply cfg fp rawJson) w r w') :
    ∃ w₁, Runs (Call.execVia fp env) ((Request.decode rawJson).serve cfg fp)
        { w with metrics := w.metrics.fetchAdd .requestsTotal } r w₁ ∧ w₁.Recounted w' := by
  have hincrement : ∀ c, (MetricsRegistry.increment c).Calls Call.Counts :=
    fun _ => invoke_calls trivial
  rw [reply, Program.perform_bind] at h
  obtain ⟨e₁, htimed⟩ := runs_call.mp h
  obtain ⟨r', w₁, hanswer, hrest⟩ := runs_bind.mp htimed
  rw [Program.perform_bind] at hrest
  obtain ⟨e₂, hrest⟩ := runs_call.mp hrest
  obtain ⟨u, w₂, hlatency, hreturn⟩ := runs_bind.mp hrest
  obtain ⟨rfl, rfl⟩ := runs_ret.mp hreturn
  have hmeasured : w₁.Recounted w' :=
    recounted_runs (recordRequestLatency_calls (fun _ => trivial) (fun _ => trivial) _) hlatency
  rw [Request.answer_eq] at hanswer
  obtain ⟨u₁, w₃, hbefore, hrest⟩ := runs_bind.mp hanswer
  obtain ⟨e₃, hbefore⟩ := runs_call.mp hbefore
  obtain ⟨rfl, rfl⟩ := runs_ret.mp hbefore
  obtain ⟨r', w₄, hserve, hrest⟩ := runs_bind.mp hrest
  obtain ⟨u₂, w₅, hafter, hreturn⟩ := runs_bind.mp hrest
  obtain ⟨rfl, rfl⟩ := runs_ret.mp hreturn
  exact ⟨w₄, hserve, (recounted_runs (hincrement _) hafter).trans hmeasured⟩

/-- **`RequestHandler::handle` follows the rules, and stores nothing unless it answers `ok`.**  This
is the theorem about single requests on which the results about runs are built. -/
theorem reply_responds {rawJson : Bytes} {w w' : World} {r : Json}
    (h : Runs (Call.execVia fp env) (reply cfg fp rawJson) w r w') :
    Responds fp (Unreadable env) (Request.decode rawJson) w.game r w'.game ∧
      (isOk r = false → w'.stored = w.stored) := by
  obtain ⟨w₁, hserve, ⟨m, rfl, -⟩⟩ := reply_serves h
  obtain ⟨hresponds, hstored⟩ := serve_responds hserve
  exact ⟨hresponds, hstored⟩

end Serve

end MultiPlayerGame
