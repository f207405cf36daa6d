import MultiPlayerGame.Json.Parser
import MultiPlayerGame.Server.World

/-!
# The request handler

`RequestHandler` with the parts of `MetricsRegistry`, `CacheManager` and `DatabaseManager` that it
calls, each method a program over the steps of `Server.World`.

An exception that leaves a method is `Except.error`.  The only one comes from the Redis client and
leaves `getPlayerSession`; `handleGetState` passes it on to `handle`, which answers with an internal
error.  `handle` ends with a `dump`, which throws if a string of the response is not UTF-8; that is
the `none` of its result.

Log messages are left out.

## Reading it against the source

The definitions stand in the order in which the source needs them: metrics, cache, database, the
checks of single fields, the handlers, and `handle`.  A `do` block of a handler has one line for
each call that the source makes on a shared object, in the order of the source, and `invoke` marks
them.  Whatever is between two such lines is a computation on the handler's own values.  The
response and the data of the event are built by definitions of their own (`joinResponse`,
`moveData`), because most of what is proved about responses is about these texts and not about the
handler around them.

An early return is `orError`: the check comes first and the rest of the handler is its last
argument, so the order in which fields are checked is the order in which they are nested.  Where the
source makes a check twice, or compares what it has cast, the definition does the same.
-/

namespace MultiPlayerGame

open Bytes (ascii decimal digits)
open Json (obj int)
open GameState (clamp mapMin mapMax)

/-- Which of the two optional parts the server runs with. -/
structure Config where
  /-- `m_cache && m_cache->isEnabled()` -/
  cacheEnabled : Bool
  /-- `m_db` is not null -/
  hasDb : Bool
  deriving DecidableEq, Repr

/-! ## Metrics -/

namespace MetricsRegistry

def increment (c : Counter) : Handler Unit := invoke (.fetchAdd c)

/-- The buckets of `recordRequestLatency`, from the `i`-th on. -/
def countBuckets (duration : Int) : List (Fin 14 × Int) → Handler Unit
  | [] => pure ()
  | (i, bound) :: rest => do
    when (duration ≤ bound) (increment (.latencyBucketCounts i))
    countBuckets duration rest

/-- The finite buckets with their bounds.  The last bucket has no bound and is counted by a step of
its own. -/
def finiteBuckets : List (Fin 14 × Int) :=
  latencyBuckets.mapIdx fun i bound => (Fin.ofNat 14 i, bound)

def recordRequestLatency (duration : Int) : Handler Unit := do
  increment .latencyCount
  invoke (.addLatency duration)
  countBuckets duration finiteBuckets
  increment (.latencyBucketCounts 13)

def recordDatabaseOperation (duration : Int) (success : Bool) : Handler Unit := do
  increment .dbOperationsTotal
  increment (if success then .dbOperationsSuccess else .dbOperationsFailed)
  invoke (.addDbLatency duration)

/-- The object that `toJson` builds from the values it has loaded. -/
def exported (fp : Doubles) (total count : Nat) (sum : List Int) (activePlayers : Int32)
    (successful failed hits misses operations : Nat) : Json :=
  obj [("active_players", int activePlayers), ("requests_total", .integer total),
    ("successful_requests", .integer successful), ("failed_requests", .integer failed),
    ("avg_latency_ms", .float (if 0 < count then fp.averageMs sum count else ascii "0.0")),
    ("redis_cache_hits", .integer hits), ("redis_cache_misses", .integer misses),
    ("database_operations", .integer operations)]

def toJson (fp : Doubles) : Handler Json := do
  let total ← invoke (.load .requestsTotal)
  let count ← invoke (.load .latencyCount)
  let sum ← invoke .loadLatencies
  let activePlayers ← invoke .loadActivePlayers
  let successful ← invoke (.load .successfulRequests)
  let failed ← invoke (.load .failedRequests)
  let hits ← invoke (.load .redisCacheHits)
  let misses ← invoke (.load .redisCacheMisses)
  let operations ← invoke (.load .dbOperationsTotal)
  return exported fp total count sum activePlayers successful failed hits misses operations

end MetricsRegistry

open MetricsRegistry (increment recordRequestLatency recordDatabaseOperation)

/-! ## The cache -/

namespace CacheManager

def sessionKey (playerId : Int32) : Bytes := ascii "session:player:" ++ toString playerId

def positionKey (playerId : Int32) : Bytes := ascii "pos:player:" ++ toString playerId

/-- The session is an object of two integers, so its `dump` does not throw. -/
def setPlayerSession (playerId : Int32) (sessionData : Json) : Handler Bool :=
  invoke (.redis (.set (sessionKey playerId) sessionData.text 300))

def setPlayerPosition (playerId x y : Int32) : Handler Bool :=
  invoke (.redis (.set (positionKey playerId) (toString x ++ ascii "," ++ toString y) 60))

def deletePlayerSession (playerId : Int32) : Handler Bool :=
  invoke (.redis (.del (sessionKey playerId)))

/-- The session in a reply, if there is one. -/
def readSession : Except Unit (Option Bytes) → Handler (Except Unit (Option Json))
  | .error _ => return .error ()
  | .ok value =>
    match value.bind Parser.parse with
    | some session => do
      increment .redisCacheHits
      return .ok (some session)
    | none => do
      increment .redisCacheMisses
      return .ok none

/-- Whether the session was found; the exception is that of the Redis client. -/
def getPlayerSession (playerId : Int32) : Handler (Except Unit (Option Json)) := do
  let reply ← invoke (.redisGet (sessionKey playerId))
  readSession reply

end CacheManager

/-! ## The database -/

namespace DatabaseManager

def upsertPlayer (playerId : Int32) (username : Bytes) (score kills : Int32) : Handler Bool := do
  if !(← invoke .dbOpen) then return false
  let t0 ← invoke .clock
  match ← invoke (.dbExecute (.upsertPlayer playerId username score kills)) with
  | .initFailed | .prepareFailed | .bindFailed =>
    recordDatabaseOperation 0 false
    return false
  | .executed ok =>
    let t1 ← invoke .clock
    recordDatabaseOperation (t1 - t0) ok
    return ok

/-- Here a failure to initialise the statement is not counted, and the result of binding is
ignored. -/
def recordEvent (matchId : Bytes) (playerId : Int32) (eventType eventData : Bytes) :
    Handler Bool := do
  if !(← invoke .dbOpen) then return false
  let t0 ← invoke .clock
  match ← invoke (.dbExecute (.recordEvent matchId playerId eventType eventData)) with
  | .initFailed => return false
  | .prepareFailed =>
    recordDatabaseOperation 0 false
    return false
  | .bindFailed =>
    let t1 ← invoke .clock
    recordDatabaseOperation (t1 - t0) false
    return false
  | .executed ok =>
    let t1 ← invoke .clock
    recordDatabaseOperation (t1 - t0) ok
    return ok

end DatabaseManager

namespace RequestHandler

/-! ## Validation helpers -/

def errorResponse (message : Bytes) : Json :=
  obj [("status", .string (ascii "error")), ("message", .string message)]

/-- A field that must be there and of the type that `get` extracts; `what` names the type. -/
def requireField {α : Type} (what : String) (get : Json → Option α) (j : Json) (key : String) :
    Except Bytes α :=
  match j.field? (ascii key) with
  | none => .error (ascii "missing required field: '" ++ ascii key ++ ascii "'")
  | some v =>
    match get v with
    | none => .error (ascii "field '" ++ ascii key ++ ascii "' must be " ++ ascii what)
    | some a => .ok a

/-- `is_number_integer()` and `get<int>()`. -/
def getInt : Json → Option Int32
  | .integer n => some (Json.toInt32 n)
  | _ => none

/-- `is_string()` and `get<std::string>()`. -/
def getString : Json → Option Bytes
  | .string s => some s
  | _ => none

def requireInt (j : Json) (key : String) : Except Bytes Int32 :=
  requireField "an integer" getInt j key

def requireString (j : Json) (key : String) : Except Bytes Bytes :=
  requireField "a string" getString j key

/-- `if (!check) return errorResponse(err)`.  The handler returns there, before any step on a shared
object that stands behind the check. -/
def orError {α : Type} (r : Except Bytes α) (next : α → Handler Json) : Handler Json :=
  match r with
  | .error err => return errorResponse err
  | .ok a => next a

/-- `m_state.recordEvent`. -/
def recordEvent (playerId : Int32) (eventType data : Bytes) : Handler Unit := do
  let eventId ← invoke .fetchAddEventId
  let timestamp ← invoke .systemClock
  invoke (.pushEvent ⟨eventId, playerId, eventType, data, timestamp⟩)

/-- `setActivePlayers(static_cast<int>(m_state.activePlayerCount()))`.  The count and the store are
two steps, and others may come in between. -/
def updateActivePlayers : Handler Unit := do
  let count ← invoke .activePlayerCount
  invoke (.setActivePlayers (Json.toInt32 count))

/-- `"Player_" + std::to_string(player_id)`. -/
def username (playerId : Int32) : Bytes := ascii "Player_" ++ toString playerId

/-- What `JOIN` puts into the cache.  The position is written as well, and both are sent whatever
becomes of the other. -/
def cacheSession (playerId : Int32) : Handler Unit := do
  let now ← invoke .time
  let session := obj [("player_id", int playerId), ("joined_at", .integer now)]
  let _ ← CacheManager.setPlayerSession playerId session
  let _ ← CacheManager.setPlayerPosition playerId 500 500

/-- What `JOIN` and `LEAVE` write to the database.  The row of the player and an event, in two
operations that do not wait for each other's outcome. -/
def storePlayer (playerId score : Int32) (eventType eventData : Bytes) : Handler Unit := do
  let _ ← DatabaseManager.upsertPlayer playerId (username playerId) score 0
  let _ ← DatabaseManager.recordEvent (ascii "match_1") playerId eventType eventData

/-! ## Action handlers -/

variable (cfg : Config) (fp : Doubles)

/-- The response of a successful `JOIN`. -/
def joinResponse (playerId : Int32) : Json :=
  obj [("status", .string (ascii "ok")), ("action", .string (ascii "JOIN")),
    ("player_id", int playerId), ("x", int 500), ("y", int 500),
    ("health", int GameState.maxHealth), ("score", int 0),
    ("message", .string (ascii "Player " ++ toString playerId ++ ascii " joined the game"))]

def handleJoin (req : Json) : Handler Json :=
  orError (requireInt req "player_id") fun playerId => do
  orError (← invoke (.addPlayer playerId)) fun _ => do
  updateActivePlayers
  when cfg.cacheEnabled (cacheSession playerId)
  when cfg.hasDb (storePlayer playerId 0 (ascii "JOIN") (ascii "\x7b\x7d"))
  recordEvent playerId (ascii "JOIN") (ascii "\x7b\x7d")
  return joinResponse playerId

/-- The data of a `MOVE` event. -/
def moveData (x y : Int32) : Bytes :=
  ascii "\x7b\"x\":" ++ toString x ++ ascii ",\"y\":" ++ toString y ++ ascii "\x7d"

/-- The response of a successful `MOVE`. -/
def moveResponse (playerId x y : Int32) : Json :=
  obj [("status", .string (ascii "ok")), ("action", .string (ascii "MOVE")),
    ("player_id", int playerId), ("x", int x), ("y", int y)]

def handleMove (req : Json) : Handler Json :=
  orError (requireInt req "player_id") fun playerId =>
  orError (requireInt req "x") fun x =>
  orError (requireInt req "y") fun y => do
  let cx := clamp x mapMin mapMax
  let cy := clamp y mapMin mapMax
  orError (← invoke (.movePlayer playerId cx cy)) fun _ => do
  when cfg.cacheEnabled (discard (CacheManager.setPlayerPosition playerId cx cy))
  recordEvent playerId (ascii "MOVE") (moveData cx cy)
  return moveResponse playerId cx cy

/-- The data of an `ATTACK` event. -/
def attackData (targetId damage : Int32) (eliminated : Bool) : Bytes :=
  ascii "\x7b\"target_id\":" ++ toString targetId ++ ascii ",\"damage\":" ++ toString damage ++
    ascii ",\"eliminated\":" ++ ascii (if eliminated then "true" else "false") ++ ascii "\x7d"

/-- The response of a successful `ATTACK`. -/
def attackResponse (playerId targetId : Int32) (result : AttackResult) : Json :=
  let resp := obj [("status", .string (ascii "ok")), ("action", .string (ascii "ATTACK")),
    ("attacker_id", int playerId), ("target_id", int targetId), ("damage", int result.damage),
    ("target_health", int result.targetHealthAfter),
    ("attacker_score", int result.attackerScore)]
  if result.targetEliminated then resp.set (ascii "eliminated") (.boolean true) else resp

def handleAttack (req : Json) : Handler Json :=
  orError (requireInt req "player_id") fun playerId =>
  orError (requireInt req "target_id") fun targetId => do
  orError (← invoke (.attackPlayer playerId targetId)) fun result => do
  recordEvent playerId (ascii "ATTACK")
    (attackData targetId result.damage result.targetEliminated)
  return attackResponse playerId targetId result

/-- The data of a `CHAT` event; `size()` has 64 bits. -/
def chatData (message : Bytes) : Bytes :=
  ascii "\x7b\"len\":" ++ digits (message.length % 2 ^ 64) ++ ascii "\x7d"

/-- The response of a successful `CHAT`. -/
def chatResponse (playerId : Int32) (message : Bytes) : Json :=
  obj [("status", .string (ascii "ok")), ("action", .string (ascii "CHAT")),
    ("player_id", int playerId), ("message", .string message)]

def handleChat (req : Json) : Handler Json :=
  orError (requireInt req "player_id") fun playerId =>
  orError (requireString req "message") fun message => do
  if message = [] then
    return errorResponse (ascii "message cannot be empty")
  if Json.toInt32 message.length > GameState.maxChatLen then
    return errorResponse (ascii "message too long (max " ++ toString GameState.maxChatLen ++
      ascii " chars)")
  if !(← invoke (.hasPlayer playerId)) then
    return errorResponse (GameState.notInGame playerId)
  recordEvent playerId (ascii "CHAT") (chatData message)
  return chatResponse playerId message

/-- Adds the two fields that every successful response has. -/
def succeed (action : String) (j : Json) : Json :=
  (j.set (ascii "status") (.string (ascii "ok"))).set (ascii "action") (.string (ascii action))

/-- The end of `handleGetState`. -/
def stateResponse : Handler (Except Unit Json) := do
  let snap ← invoke .snapshot
  return .ok (succeed "GET_STATE" snap)

def handleGetState (req : Json) : Handler (Except Unit Json) :=
  match (req.field? (ascii "player_id")).bind getInt with
  | none => stateResponse
  | some playerId => do
    if !(← invoke (.hasPlayer playerId)) then
      return .ok (errorResponse (GameState.notInGame playerId))
    if cfg.cacheEnabled then
      match ← CacheManager.getPlayerSession playerId with
      | .error _ => return .error ()
      | .ok _ => stateResponse
    else stateResponse

/-- The data of an `UPDATE_SCORE` event. -/
def scoreData (score : Int32) : Bytes :=
  ascii "\x7b\"score\":" ++ toString score ++ ascii "\x7d"

/-- The response of a successful `UPDATE_SCORE`. -/
def updateScoreResponse (playerId score : Int32) : Json :=
  obj [("status", .string (ascii "ok")), ("action", .string (ascii "UPDATE_SCORE")),
    ("player_id", int playerId), ("score", int score)]

def handleUpdateScore (req : Json) : Handler Json :=
  orError (requireInt req "player_id") fun playerId =>
  orError (requireInt req "score") fun score => do
  if score < 0 then
    return errorResponse (ascii "score cannot be negative")
  orError (← invoke (.setScore playerId score)) fun _ => do
  recordEvent playerId (ascii "UPDATE_SCORE") (scoreData score)
  return updateScoreResponse playerId score

/-- The data of a `LEAVE` event. -/
def leaveData (finalScore : Int32) : Bytes :=
  ascii "\x7b\"final_score\":" ++ toString finalScore ++ ascii "\x7d"

/-- The response of a successful `LEAVE`. -/
def leaveResponse (playerId finalScore : Int32) : Json :=
  obj [("status", .string (ascii "ok")), ("action", .string (ascii "LEAVE")),
    ("player_id", int playerId), ("final_score", int finalScore),
    ("message", .string (ascii "Player " ++ toString playerId ++ ascii " left the game"))]

def handleLeave (req : Json) : Handler Json :=
  orError (requireInt req "player_id") fun playerId => do
  orError (← invoke (.removePlayer playerId)) fun finalScore => do
  updateActivePlayers
  when cfg.cacheEnabled (discard (CacheManager.deletePlayerSession playerId))
  when cfg.hasDb (storePlayer playerId finalScore (ascii "LEAVE") (leaveData finalScore))
  recordEvent playerId (ascii "LEAVE") (leaveData finalScore)
  return leaveResponse playerId finalScore

def handleGetMetrics : Handler Json := do
  let m ← MetricsRegistry.toJson fp
  return succeed "GET_METRICS" m

/-! ## Dispatch -/

/-- The actions that have a handler. -/
inductive Action where
  | join
  | move
  | attack
  | chat
  | getState
  | updateScore
  | leave
  | getMetrics
  deriving DecidableEq, Repr

namespace Action

/-- How an action is spelled. -/
def name : Action → String
  | join => "JOIN"
  | move => "MOVE"
  | attack => "ATTACK"
  | chat => "CHAT"
  | getState => "GET_STATE"
  | updateScore => "UPDATE_SCORE"
  | leave => "LEAVE"
  | getMetrics => "GET_METRICS"

/-- In the order in which `handle` compares. -/
def all : List Action :=
  [join, move, attack, chat, getState, updateScore, leave, getMetrics]

def ofName? (s : Bytes) : Option Action := all.find? fun a => ascii a.name = s

end Action

/-- The handler of an action. -/
def dispatch (req : Json) : Action → Handler (Except Unit Json)
  | .join => .ok <$> handleJoin cfg req
  | .move => .ok <$> handleMove cfg req
  | .attack => .ok <$> handleAttack req
  | .chat => .ok <$> handleChat req
  | .getState => handleGetState cfg req
  | .updateScore => .ok <$> handleUpdateScore req
  | .leave => .ok <$> handleLeave cfg req
  | .getMetrics => .ok <$> handleGetMetrics fp

/-- The `catch` of `handle`. -/
def orInternalError : Except Unit Json → Handler Json
  | .ok response => return response
  | .error _ => return errorResponse (ascii "internal server error")

/-- The response to a request with this action.  An action that no handler is found for is repeated
in the error. -/
def respond (req : Json) (action : Bytes) : Handler Json :=
  match Action.ofName? action with
  | none => return errorResponse (ascii "unknown action: " ++ action)
  | some a => do
    let r ← dispatch cfg fp req a
    orInternalError r

/-- Is the status of a response `ok`? -/
def isOk (response : Json) : Bool := response.stringValue (ascii "status") [] = ascii "ok"

/-- A request that is refused before its action is known. -/
def refuse (message : String) : Handler Json := do
  increment .requestsTotal
  increment .failedRequests
  return errorResponse (ascii message)

/-- The body of `handle`.  It counts the request first, and then its outcome at each of the three
exits. -/
def answer (rawJson : Bytes) : Handler Json := do
  match Parser.parse rawJson with
  | none => refuse "invalid JSON"
  | some request =>
    match (request.field? (ascii "action")).bind getString with
    | none => refuse "missing action"
    | some action =>
      increment .requestsTotal
      let response ← respond cfg fp request action
      increment (if isOk response then .successfulRequests else .failedRequests)
      return response

/-- `handle` up to the serialisation of the response, with the timer around it. -/
def reply (rawJson : Bytes) : Handler Json := do
  let start ← invoke .clock
  let response ← answer cfg fp rawJson
  let finish ← invoke .clock
  recordRequestLatency (finish - start)
  return response

def handle (rawJson : Bytes) : Handler (Option Bytes) := do
  let response ← reply cfg fp rawJson
  return response.dump

end RequestHandler
end MultiPlayerGame
