import MultiPlayerGame.Server.GameState
import MultiPlayerGame.Server.RedisClient
import MultiPlayerGame.Library.Program

/-!
# The shared objects and their calls

A handler works on four shared objects: the game state, the metrics registry, the cache and the
database.  This file gives each call on them its indivisible effect, `Call.exec`; the handlers in
`Server.RequestHandler` are programs over these calls.

A step takes as one what the source does under one lock or in one atomic operation.  So
`GameState::recordEvent` is two steps, a `fetch_add` and an append under the mutex; a metric is one
step for each atomic; a Redis command, with the reply it waits for, is one step; and of a database
operation the two sections under its mutex, `open` and the statement, are one step each.

Everything that comes from outside the process is in `Env`.

## What a step may assume

Nothing about the other requests: between two steps of a handler the world may have become any other
world.  `Call.exec` is total, so a step is possible in every world, and a program over these calls
can be run from anywhere.  What comes from outside is an argument of the step and not a part of the
world, because it is chosen anew each time: two readings of a clock need not be ordered, and a
connection that was refused may be accepted at the next attempt.

A Redis command and its reply are one step.  The connections of the pool are used by one request at
a time, so what another request does meanwhile on its own connection cannot be seen in this one; and
the server executes one command at a time, whose place in the order is this step.
-/

namespace MultiPlayerGame

/-! ## Metrics -/

/-- The counters of the registry.  The last latency bucket is the one without a bound. -/
inductive Counter where
  | requestsTotal
  | successfulRequests
  | failedRequests
  | latencyCount
  | latencyBucketCounts (i : Fin 14)
  | redisCacheHits
  | redisCacheMisses
  | dbOperationsTotal
  | dbOperationsSuccess
  | dbOperationsFailed
  deriving DecidableEq, Repr

/-- `MetricsRegistry`.  The two sums of `double`s are kept as the lists of what was added to them,
in nanoseconds and in the order of the additions. -/
structure MetricsRegistry where
  counters : Counter → Nat := fun _ => 0
  activePlayers : Int32 := 0
  latencySum : List Int := []
  dbLatencySum : List Int := []

namespace MetricsRegistry

/-- The bounds of the latency buckets, in nanoseconds. -/
def latencyBuckets : List Int :=
  [100000, 250000, 500000, 1000000, 2500000, 5000000, 10000000, 25000000, 50000000, 100000000,
    250000000, 500000000, 1000000000]

def fetchAdd (c : Counter) (m : MetricsRegistry) : MetricsRegistry :=
  { m with counters := fun d => if d = c then m.counters c + 1 else m.counters d }

end MetricsRegistry

/-! ## The database -/

/-- The prepared statements that the handlers execute.  The values that are bound to their
parameters are their arguments. -/
inductive Statement where
  | upsertPlayer (playerId : Int32) (username : Bytes) (score kills : Int32)
  | recordEvent (matchId : Bytes) (playerId : Int32) (eventType eventData : Bytes)
  deriving DecidableEq, Repr

/-- How far a statement gets.  An operation looks at this to tell whether to count a success or a
failure. -/
inductive StatementOutcome where
  | initFailed
  | prepareFailed
  | bindFailed
  | executed (ok : Bool)
  deriving DecidableEq, Repr

/-- A row of the table `players`, without its timestamps. -/
structure PlayerRow where
  username : Bytes
  score : Int32
  highScore : Int32
  kills : Int32
  deriving DecidableEq, Repr

/-- A row of the table `game_events`, without its timestamp. -/
structure EventRow where
  matchId : Bytes
  playerId : Int32
  eventType : Bytes
  eventData : Bytes
  deriving DecidableEq, Repr

/-- The tables, and the two fields of `DatabaseManager` that say whether they can be reached. -/
structure Database where
  players : KeyedMap Int32 PlayerRow := ∅
  gameEvents : List EventRow := []
  /-- `m_conn` is not null -/
  conn : Bool := false
  connected : Bool := false

/-- What the MySQL client library does in one step. -/
structure Sql where
  ping : Bool := true
  init : Bool := true
  connect : Bool := true
  statement : StatementOutcome := .executed true
  deriving DecidableEq, Repr

namespace Database

def «open» (sql : Sql) (db : Database) : Bool × Database :=
  if db.connected && db.conn && sql.ping then (true, db)
  else if sql.init && sql.connect then (true, { db with conn := true, connected := true })
  else (false, { db with conn := false, connected := false })

/-- `GREATEST` of two columns. -/
def greatest (a b : Int32) : Int32 := if a < b then b else a

/-- The effect of a statement on the tables. -/
def apply (statement : Statement) (db : Database) : Database :=
  match statement with
  | .upsertPlayer playerId username score kills =>
    match db.players.lookup playerId with
    | none => { db with players := db.players.insert playerId ⟨username, score, score, kills⟩ }
    | some row =>
      let row := { row with
        score
        highScore := greatest row.highScore score
        kills := greatest row.kills kills }
      { db with players := db.players.replace playerId row }
  | .recordEvent matchId playerId eventType eventData =>
    { db with gameEvents := db.gameEvents ++ [⟨matchId, playerId, eventType, eventData⟩] }

/-- Prepare, bind and execute.  The tables change only if the statement was executed and MySQL
applied it. -/
def execute (sql : Sql) (statement : Statement) (db : Database) : StatementOutcome × Database :=
  (sql.statement, if sql.statement = .executed true then db.apply statement else db)

end Database

/-! ## Steps -/

/-- A Redis command that `CacheManager` sends. -/
inductive RedisCommand where
  | set (key value : Bytes) (expireSeconds : Nat)
  | del (key : Bytes)
  deriving DecidableEq, Repr

/-- The keys that the Redis server holds after executing a command. -/
def RedisCommand.apply (keys : KeyedMap Bytes Bytes) : RedisCommand → KeyedMap Bytes Bytes
  | .set key value _ => keys.insert key value
  | .del key => keys.erase key

/-- One step on a shared object.  The list is that of all calls that a handler makes, with what the
source passes. -/
inductive Call where
  | addPlayer (playerId : Int32)
  | removePlayer (playerId : Int32)
  | movePlayer (playerId x y : Int32)
  | attackPlayer (attackerId targetId : Int32)
  | setScore (playerId score : Int32)
  | hasPlayer (playerId : Int32)
  | snapshot
  | activePlayerCount
  | fetchAddEventId
  | systemClock
  | pushEvent (ev : GameEvent)
  | fetchAdd (c : Counter)
  | load (c : Counter)
  | setActivePlayers (count : Int32)
  | loadActivePlayers
  | addLatency (duration : Int)
  | loadLatencies
  | addDbLatency (duration : Int)
  | clock
  | time
  | redis (command : RedisCommand)
  | redisGet (key : Bytes)
  | dbOpen
  | dbExecute (statement : Statement)

/-- What a step is answered. -/
@[reducible] def Call.Ans : Call → Type
  | .addPlayer _ | .movePlayer .. | .setScore .. => Except Bytes Unit
  | .removePlayer _ => Except Bytes Int32
  | .attackPlayer .. => Except Bytes AttackResult
  | .hasPlayer _ => Bool
  | .snapshot => Json
  | .activePlayerCount | .fetchAddEventId | .load _ => Nat
  | .loadActivePlayers => Int32
  | .loadLatencies => List Int
  | .pushEvent _ | .fetchAdd _ | .setActivePlayers _ | .addLatency _ | .addDbLatency _ => Unit
  | .systemClock | .clock | .time => Int
  | .redis _ => Bool
  | .redisGet _ => Except Unit (Option Bytes)
  | .dbOpen => Bool
  | .dbExecute _ => StatementOutcome

/-- The shared objects.  `keys` is what the Redis server holds. -/
structure World where
  game : GameState
  metrics : MetricsRegistry := {}
  pool : RedisPool := {}
  keys : KeyedMap Bytes Bytes := ∅
  db : Database := {}

/-- What reaches a step from outside: clock readings, the network, whether the Redis server executes
the command, and what MySQL does. -/
structure Env where
  now : Nat → Int := fun _ => 0
  net : RedisConnection := {}
  executed : Bool := false
  sql : Sql := {}

instance : Inhabited Env := ⟨{}⟩

/-- A method that may refuse, on the game state in the world. -/
def World.attempt {α : Type} (w : World) (r : Except Bytes (α × GameState)) :
    Except Bytes α × World :=
  match r with
  | .ok (a, game) => (.ok a, { w with game })
  | .error err => (.error err, w)

/-- The same for a method that returns nothing. -/
def World.attemptUnit (w : World) (r : Except Bytes GameState) : Except Bytes Unit × World :=
  w.attempt (r.map fun game => ((), game))

/-- The command as `RedisConnection` sends it. -/
def RedisCommand.send (command : RedisCommand) (c : RedisConnection) : Bool × RedisConnection :=
  match command with
  | .set key value expireSeconds => c.set key value expireSeconds
  | .del key => c.del key

/-- **One step.**  What the step is answered and the world that it leaves, for whatever comes from
outside. -/
def Call.exec (fp : Doubles) : (c : Call) → Env → World → c.Ans × World
  | .addPlayer playerId, e, w => w.attemptUnit (w.game.addPlayer playerId e.now)
  | .removePlayer playerId, _, w => w.attempt (w.game.removePlayer playerId)
  | .movePlayer playerId x y, _, w => w.attemptUnit (w.game.movePlayer playerId x y)
  | .attackPlayer attackerId targetId, _, w => w.attempt (w.game.attackPlayer attackerId targetId)
  | .setScore playerId score, _, w => w.attemptUnit (w.game.setScore playerId score)
  | .hasPlayer playerId, _, w => (w.game.hasPlayer playerId, w)
  | .snapshot, e, w => (w.game.snapshot fp e.now, w)
  | .activePlayerCount, _, w => (w.game.activePlayerCount, w)
  | .fetchAddEventId, _, w =>
    (w.game.fetchAddEventId.1, { w with game := w.game.fetchAddEventId.2 })
  | .systemClock, e, w => (e.now 0, w)
  | .pushEvent ev, _, w => ((), { w with game := w.game.pushEvent ev })
  | .fetchAdd c, _, w => ((), { w with metrics := w.metrics.fetchAdd c })
  | .load c, _, w => (w.metrics.counters c, w)
  | .setActivePlayers count, _, w =>
    ((), { w with metrics := { w.metrics with activePlayers := count } })
  | .loadActivePlayers, _, w => (w.metrics.activePlayers, w)
  | .addLatency duration, _, w =>
    ((), { w with metrics := { w.metrics with latencySum := w.metrics.latencySum ++ [duration] } })
  | .loadLatencies, _, w => (w.metrics.latencySum, w)
  | .addDbLatency duration, _, w =>
    ((), { w with
      metrics := { w.metrics with dbLatencySum := w.metrics.dbLatencySum ++ [duration] } })
  | .clock, e, w => (e.now 0, w)
  | .time, e, w => (e.now 0, w)
  | .redis command, e, w =>
    let (ok, pool) := w.pool.withConnection command.send e.net
    (ok, { w with pool, keys := if e.executed then command.apply w.keys else w.keys })
  | .redisGet key, e, w =>
    let (value, pool) := w.pool.withConnection (RedisConnection.get key) e.net
    (value, { w with pool })
  | .dbOpen, e, w =>
    let (ok, db) := w.db.open e.sql
    (ok, { w with db })
  | .dbExecute statement, e, w =>
    let (outcome, db) := w.db.execute e.sql statement
    (outcome, { w with db })

/-- Steps whose outside inputs come from some type of environments. -/
def Call.execVia {ε : Type} (fp : Doubles) (env : ε → Env) (c : Call) (e : ε) (w : World) :
    c.Ans × World :=
  c.exec fp (env e) w

/-- A program over the shared objects.  It ends with what the function of the source returns. -/
abbrev Handler := Program Call Call.Ans

/-- The program of a single step. -/
abbrev invoke (c : Call) : Handler c.Ans := Program.perform c

/-- An `if` without an `else`. -/
def when (b : Bool) (p : Handler Unit) : Handler Unit := if b then p else pure ()

end MultiPlayerGame
