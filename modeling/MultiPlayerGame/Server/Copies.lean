import MultiPlayerGame.Server.Reachable

/-!
# The copies of the game

Who is in the game is written down in three more places: the gauge among the metrics counts the
players, Redis holds a session and a position for each, and MySQL a row.  The handlers keep these
copies by hand.  `reply_copies` says what one request does to them: a request that succeeds runs the
effects of its command, and every other one leaves them alone.  The lemmas after it say what the
effects of each command are; those of `MOVE`, `ATTACK`, `CHAT` and `UPDATE_SCORE` are little or
nothing, and an `ATTACK` that takes a player out of the game (`Eliminates`) has none.

## Why the copies go wrong

What is asked of a copy is that after every request it says what the game says.  `reply_copies`
gives what both of them are after a request, so the question comes down to comparing `gaugeAfter`,
`keysAfter` or `rowsAfter` with `Command.Players`, command by command.  As to who is in the game,
five of the six commands keep them in step.  An `ATTACK` removes a player from the map of players
and has no effects at all, and that is the whole defect: `Eliminates` says when it happens, in terms
of the state before the request, and `apply_of_players` shows that it then does.

## What is assumed of Redis and MySQL

Nothing, for the gauge.  For the keys it is that Redis executes the commands that it is sent, for
the rows that MySQL applies every statement (`Sql.Works`).  Without that a copy may be old for
reasons that are no fault of the handlers.  The steps that write to one copy spare the two others
(`Call.Spares`), so each copy is followed on its own.
-/

namespace MultiPlayerGame

open Bytes (ascii)
open Program (Runs runs_ret runs_call runs_bind)
open RequestHandler
open GameState (clamp mapMin mapMax)

/-- The gauge, the keys in Redis and the rows of the players in MySQL. -/
structure Copies where
  gauge : Int32
  keys : KeyedMap Bytes Bytes
  rows : KeyedMap Int32 PlayerRow

def World.copies (w : World) : Copies := ⟨w.metrics.activePlayers, w.keys, w.db.players⟩

/-! ## Steps that write to a copy -/

/-- Steps that do not write to the gauge, to Redis or to MySQL. -/
def Call.Spares (gauge redis db : Bool) : Call → Prop
  | .setActivePlayers _ => gauge = false
  | .redis _ => redis = false
  | .dbExecute _ => db = false
  | _ => True

theorem World.copies_attempt {α : Type} (w : World) (r : Except Bytes (α × GameState)) :
    (w.attempt r).2.copies = w.copies := by
  cases r with
  | error err => rfl
  | ok r => rfl

/-- What a step that spares a copy leaves as it was. -/
theorem Call.exec_spares (fp : Doubles) {gauge redis db : Bool} {c : Call}
    (hc : c.Spares gauge redis db) (e : Env) (w : World) :
    (gauge = true → (c.exec fp e w).2.copies.gauge = w.copies.gauge) ∧
      (redis = true → (c.exec fp e w).2.copies.keys = w.copies.keys) ∧
      (db = true → (c.exec fp e w).2.copies.rows = w.copies.rows) := by
  cases c with
  | addPlayer => rw [exec, World.attemptUnit, World.copies_attempt]; simp
  | removePlayer => rw [exec, World.copies_attempt]; simp
  | movePlayer => rw [exec, World.attemptUnit, World.copies_attempt]; simp
  | attackPlayer => rw [exec, World.copies_attempt]; simp
  | setScore => rw [exec, World.attemptUnit, World.copies_attempt]; simp
  | setActivePlayers =>
    refine ⟨fun h => ?_, fun _ => rfl, fun _ => rfl⟩
    rw [hc] at h
    cases h
  | redis =>
    refine ⟨fun _ => rfl, fun h => ?_, fun _ => rfl⟩
    rw [hc] at h
    cases h
  | dbExecute =>
    refine ⟨fun _ => rfl, fun _ => rfl, fun h => ?_⟩
    rw [hc] at h
    cases h
  | dbOpen => exact ⟨fun _ => rfl, fun _ => rfl, fun _ => (Database.stored_open e.sql w.db).1⟩
  | _ => exact ⟨fun _ => rfl, fun _ => rfl, fun _ => rfl⟩

section Runs

variable {ε : Type} {env : ε → Env} {cfg : Config} {fp : Doubles} {α : Type} {p : Handler α}
  {w w' : World} {a : α}

theorem gauge_runs (hp : p.Calls (Call.Spares true false false))
    (h : Runs (Call.execVia fp env) p w a w') : w'.copies.gauge = w.copies.gauge :=
  Program.Calls.runs_eq (fun w => w.copies.gauge)
    (fun _ e w hc => (Call.exec_spares fp hc (env e) w).1 rfl) hp h

theorem keys_runs (hp : p.Calls (Call.Spares false true false))
    (h : Runs (Call.execVia fp env) p w a w') : w'.copies.keys = w.copies.keys :=
  Program.Calls.runs_eq (fun w => w.copies.keys)
    (fun _ e w hc => (Call.exec_spares fp hc (env e) w).2.1 rfl) hp h

theorem rows_runs (hp : p.Calls (Call.Spares false false true))
    (h : Runs (Call.execVia fp env) p w a w') : w'.copies.rows = w.copies.rows :=
  Program.Calls.runs_eq (fun w => w.copies.rows)
    (fun _ e w hc => (Call.exec_spares fp hc (env e) w).2.2 rfl) hp h

theorem Call.Spares.weaken {c : Call} (hc : c.Spares true true true) (gauge redis db : Bool) :
    c.Spares gauge redis db := by
  cases c with
  | setActivePlayers => cases hc
  | redis => cases hc
  | dbExecute => cases hc
  | _ => trivial

/-- A program that writes to no copy. -/
theorem copies_runs (hp : p.Calls (Call.Spares true true true))
    (h : Runs (Call.execVia fp env) p w a w') : w'.copies = w.copies := by
  have hgauge := gauge_runs (hp.mono fun c hc => hc.weaken true false false) h
  have hkeys := keys_runs (hp.mono fun c hc => hc.weaken false true false) h
  have hrows := rows_runs (hp.mono fun c hc => hc.weaken false false true) h
  have hcopies : ∀ v : World, v.copies = ⟨v.copies.gauge, v.copies.keys, v.copies.rows⟩ :=
    fun _ => rfl
  rw [hcopies w', hgauge, hkeys, hrows]

/-! ## One request -/

theorem Call.Looks.spares {c : Call} (hc : c.Looks) : c.Spares true true true := by
  cases c with
  | setActivePlayers | redis | dbExecute => exact hc.elim
  | _ => trivial

theorem game_of_not_command {unreadable : Prop} {q : Request} (hq : ∀ c, q ≠ .command c)
    {g g' : GameState} {r : Json} (h : Responds fp unreadable q g r g') : g' = g := by
  cases h with
  | done c => exact absurd rfl (hq c)
  | _ => rfl

/-- **What a request does to the game and its copies.**  Either nothing, and if it is a command the
game refused it; or its command is carried
out, and its effects are all that is done to the copies. -/
theorem reply_copies {rawJson : Bytes} {r : Json}
    (h : Runs (Call.execVia fp env) (reply cfg fp rawJson) w r w') :
    (w'.game = w.game ∧ w'.copies = w.copies ∧
        ∀ c, Request.decode rawJson = .command c → ∃ now err, c.apply now w.game = .error err) ∨
      ∃ c now data g x w₁ w₂ timestamp, Request.decode rawJson = .command c ∧
        c.apply now w.game = .ok ((data, r), g) ∧ c.outcome x = .ok (data, r) ∧
        w₁.game = g ∧ w₁.copies = w.copies ∧
        Runs (Call.execVia fp env) (c.effects cfg x) w₁ () w₂ ∧
        w'.game = g.record c.playerId (ascii c.action.name) data timestamp ∧
        w'.copies = w₂.copies := by
  obtain ⟨w₂, hserve, ⟨m₂, rfl, hm₂⟩⟩ := reply_serves h
  have hcopies₁ :
      ({ w with metrics := w.metrics.fetchAdd .requestsTotal } : World).copies = w.copies := rfl
  have hcopies₂ : ({ w₂ with metrics := m₂ } : World).copies = w₂.copies :=
    congrArg (Copies.mk · w₂.keys w₂.db.players) hm₂
  cases hq : Request.decode rawJson with
  | command c =>
    rw [hq] at hserve
    rcases handler_runs hserve with ⟨e, err, happly, -, rfl⟩ |
      ⟨e, data, g, x, w₃, timestamp, happly, houtcome, heffects, -, rfl⟩
    · refine Or.inl ⟨rfl, hcopies₂.trans hcopies₁, fun c' hc' => ?_⟩
      cases hc'
      exact ⟨_, err, happly⟩
    · exact Or.inr ⟨c, _, data, g, x,
        { w with game := g, metrics := w.metrics.fetchAdd .requestsTotal }, w₃, timestamp, rfl,
        happly, houtcome, rfl, hcopies₁, heffects, rfl, hcopies₂⟩
  | _ =>
    have hne : ∀ c, Request.decode rawJson ≠ .command c := fun c hc => by
      rw [hq] at hc
      cases hc
    have hspares := (serve_looks cfg fp hne).mono fun _ => Call.Looks.spares
    refine Or.inl ⟨?_, hcopies₂.trans ((copies_runs hspares hserve).trans hcopies₁), fun c hc => ?_⟩
    · exact game_of_not_command hne (serve_responds hserve).1
    · cases hc

/-! ## The effects of the commands -/

theorem Call.OnDatabase.spares {c : Call} (hc : c.OnDatabase) : c.Spares true true false := by
  cases c with
  | dbOpen | dbExecute | clock | fetchAdd | addDbLatency => trivial
  | _ => exact hc.elim

theorem storePlayer_spares {P : Call → Prop} (hP : ∀ c : Call, c.Spares true true false → P c)
    (playerId score : Int32) (eventType eventData : Bytes) :
    (storePlayer playerId score eventType eventData).Calls P :=
  storePlayer_calls (fun c hc _ => hP c hc.spares) playerId score eventType eventData

theorem cacheSession_calls {P : Call → Prop} (htime : P .time) (hredis : ∀ c, P (.redis c))
    (playerId : Int32) : (cacheSession playerId).Calls P :=
  ⟨htime, fun _ => ⟨hredis _, fun _ => ⟨hredis _, fun _ => trivial⟩⟩⟩

theorem updateActivePlayers_runs {u : Unit}
    (h : Runs (Call.execVia fp env) updateActivePlayers w u w') :
    w'.game = w.game ∧
      w'.copies = { w.copies with gauge := Json.toInt32 w.game.players.size } := by
  obtain ⟨e₁, h⟩ := runs_call.mp h
  obtain ⟨e₂, h⟩ := runs_call.mp h
  obtain ⟨-, rfl⟩ := runs_ret.mp h
  exact ⟨rfl, rfl⟩

/-! ### The gauge -/

/-- What the effects of a command leave in the gauge: `JOIN` and `LEAVE` set it to the number of
players. -/
def Command.gaugeAfter (size : Nat) (gauge : Int32) : Command → Int32
  | join _ | leave _ => Json.toInt32 size
  | _ => gauge

theorem effects_gauge {c : Command} {x : c.call.Ans} {data : Bytes} {r : Json} {u : Unit}
    (hx : c.outcome x = .ok (data, r)) (h : Runs (Call.execVia fp env) (c.effects cfg x) w u w') :
    w'.copies.gauge = c.gaugeAfter w.game.players.size w.copies.gauge := by
  have hstore : ∀ playerId score eventType eventData,
      (when cfg.hasDb (storePlayer playerId score eventType eventData)).Calls
        (Call.Spares true false false) := fun playerId score eventType eventData =>
    when_calls (storePlayer_spares (fun c hc => by cases c <;> trivial) _ _ _ _)
  cases c with
  | join playerId =>
    obtain ⟨u₁, w₁, hupdate, h⟩ := runs_bind.mp h
    have hrest : (do
        when cfg.cacheEnabled (cacheSession playerId)
        when cfg.hasDb (storePlayer playerId 0 (ascii "JOIN") (ascii "\x7b\x7d"))).Calls
          (Call.Spares true false false) :=
      (when_calls (cacheSession_calls trivial (fun _ => rfl) playerId)).bind fun _ =>
        hstore _ _ _ _
    rw [gauge_runs hrest h, (updateActivePlayers_runs hupdate).2]
    rfl
  | leave playerId =>
    cases x with
    | error err => cases hx
    | ok finalScore =>
      obtain ⟨u₁, w₁, hupdate, h⟩ := runs_bind.mp h
      have hdelete : (discard (CacheManager.deletePlayerSession playerId)).Calls
          (Call.Spares true false false) := discard_invoke_calls (c := .redis _) rfl
      have hrest : (do
          when cfg.cacheEnabled (discard (CacheManager.deletePlayerSession playerId))
          when cfg.hasDb (storePlayer playerId finalScore (ascii "LEAVE")
            (leaveData finalScore))).Calls (Call.Spares true false false) :=
        (when_calls hdelete).bind fun _ => hstore _ _ _ _
      rw [gauge_runs hrest h, (updateActivePlayers_runs hupdate).2]
      rfl
  | move => exact gauge_runs (when_calls (discard_invoke_calls (c := .redis _) rfl)) h
  | _ =>
    obtain ⟨-, rfl⟩ := runs_ret.mp h
    rfl

/-! ### The keys in Redis -/

theorem invoke_runs {c : Call} {x : c.Ans} (h : Runs (Call.execVia fp env) (invoke c) w x w') :
    ∃ e, x = (c.exec fp (env e) w).1 ∧ w' = (c.exec fp (env e) w).2 := by
  obtain ⟨e, h⟩ := runs_call.mp h
  exact ⟨e, runs_ret.mp h⟩

/-- A command that the Redis server executes. -/
theorem redis_runs (hexecuted : ∀ e, (env e).executed = true) {command : RedisCommand} {b : Bool}
    (h : Runs (Call.execVia fp env) (invoke (.redis command)) w b w') :
    w'.copies = { w.copies with keys := command.apply w.copies.keys } := by
  obtain ⟨e, -, rfl⟩ := invoke_runs h
  have hkeys : ((Call.redis command).exec fp (env e) w).2.keys = command.apply w.keys := by
    simp only [Call.exec, hexecuted e, if_true]
  exact congrArg (Copies.mk w.metrics.activePlayers · w.db.players) hkeys

/-- How a position is stored. -/
def position (x y : Int32) : Bytes := toString x ++ ascii "," ++ toString y

/-- What the effects of a command leave in Redis; `session` is what a `JOIN` stores. -/
def Command.keysAfter (session : Bytes) (keys : KeyedMap Bytes Bytes) :
    Command → KeyedMap Bytes Bytes
  | join playerId =>
    (keys.insert (CacheManager.sessionKey playerId) session).insert
      (CacheManager.positionKey playerId) (position 500 500)
  | move playerId x y =>
    keys.insert (CacheManager.positionKey playerId)
      (position (clamp x mapMin mapMax) (clamp y mapMin mapMax))
  | leave playerId => keys.erase (CacheManager.sessionKey playerId)
  | _ => keys

theorem cacheSession_runs (hexecuted : ∀ e, (env e).executed = true) {playerId : Int32} {u : Unit}
    (h : Runs (Call.execVia fp env) (cacheSession playerId) w u w') :
    ∃ session, w'.copies =
      { w.copies with keys := (Command.join playerId).keysAfter session w.copies.keys } := by
  obtain ⟨now, w₁, htime, h⟩ := runs_bind.mp h
  obtain ⟨b₁, w₂, hsession, h⟩ := runs_bind.mp h
  obtain ⟨b₂, w₃, hposition, h⟩ := runs_bind.mp h
  obtain ⟨-, rfl⟩ := runs_ret.mp h
  obtain ⟨e, -, rfl⟩ := invoke_runs htime
  have hkeys := redis_runs hexecuted hsession
  have hkeys' := redis_runs hexecuted hposition
  rw [hkeys] at hkeys'
  exact ⟨_, hkeys'⟩

theorem effects_keys (hcache : cfg.cacheEnabled = true) (hexecuted : ∀ e, (env e).executed = true)
    {c : Command} {x : c.call.Ans} {data : Bytes} {r : Json} {u : Unit}
    (hx : c.outcome x = .ok (data, r)) (h : Runs (Call.execVia fp env) (c.effects cfg x) w u w') :
    ∃ session, w'.copies.keys = c.keysAfter session w.copies.keys := by
  have hstore : ∀ playerId score eventType eventData,
      (when cfg.hasDb (storePlayer playerId score eventType eventData)).Calls
        (Call.Spares false true false) := fun playerId score eventType eventData =>
    when_calls (storePlayer_spares (fun c hc => by cases c <;> trivial) _ _ _ _)
  cases c with
  | join playerId =>
    obtain ⟨u₁, w₁, hupdate, h⟩ := runs_bind.mp h
    obtain ⟨u₂, w₂, hsession, h⟩ := runs_bind.mp h
    rw [hcache] at hsession
    obtain ⟨session, hcopies⟩ := cacheSession_runs hexecuted hsession
    refine ⟨session, ?_⟩
    rw [keys_runs (hstore _ _ _ _) h, hcopies, (updateActivePlayers_runs hupdate).2]
  | leave playerId =>
    cases x with
    | error err => cases hx
    | ok finalScore =>
      obtain ⟨u₁, w₁, hupdate, h⟩ := runs_bind.mp h
      obtain ⟨u₂, w₂, hdelete, h⟩ := runs_bind.mp h
      rw [hcache] at hdelete
      obtain ⟨b, w₃, hdelete, hreturn⟩ := runs_bind.mp hdelete
      obtain ⟨-, rfl⟩ := runs_ret.mp hreturn
      refine ⟨[], ?_⟩
      rw [keys_runs (hstore _ _ _ _) h, redis_runs hexecuted hdelete,
        (updateActivePlayers_runs hupdate).2]
      rfl
  | move playerId x y =>
    rw [Command.effects, hcache] at h
    obtain ⟨b, w₁, hset, hreturn⟩ := runs_bind.mp h
    obtain ⟨-, rfl⟩ := runs_ret.mp hreturn
    refine ⟨[], ?_⟩
    rw [redis_runs hexecuted hset]
    rfl
  | _ =>
    obtain ⟨-, rfl⟩ := runs_ret.mp h
    exact ⟨[], rfl⟩

/-! ### The rows in MySQL -/

/-- MySQL can be reached and applies every statement. -/
def Sql.Works (sql : Sql) : Prop :=
  sql.init = true ∧ sql.connect = true ∧ sql.statement = .executed true

/-- What `upsertPlayer` does to the rows.  A new row has the numbers as they are, and in an old one
each number is the greater of the two. -/
def upserted (playerId : Int32) (username : Bytes) (score kills : Int32)
    (rows : KeyedMap Int32 PlayerRow) : KeyedMap Int32 PlayerRow :=
  match rows.lookup playerId with
  | none => rows.insert playerId ⟨username, score, score, kills⟩
  | some row =>
    rows.replace playerId { row with
      score
      highScore := Database.greatest row.highScore score
      kills := Database.greatest row.kills kills }

theorem players_apply_upsertPlayer (db : Database) (playerId : Int32) (username : Bytes)
    (score kills : Int32) : (db.apply (.upsertPlayer playerId username score kills)).players =
      upserted playerId username score kills db.players := by
  rw [Database.apply, upserted]
  cases db.players.lookup playerId <;> rfl

theorem open_of_works {sql : Sql} (hsql : sql.Works) (db : Database) : (db.open sql).1 = true := by
  unfold Database.open
  split
  · rfl
  · rw [hsql.1, hsql.2.1]
    rfl

/-- An operation on the database whose statement is executed. -/
theorem execute_runs (hsql : ∀ e, (env e).sql.Works) {statement : Statement}
    {outcome : StatementOutcome}
    (h : Runs (Call.execVia fp env) (invoke (.dbExecute statement)) w outcome w') :
    w'.copies = { w.copies with rows := (w.db.apply statement).players } := by
  obtain ⟨e, -, rfl⟩ := invoke_runs h
  have hdb : ((Call.dbExecute statement).exec fp (env e) w).2.db = w.db.apply statement := by
    simp only [Call.exec, Database.execute, (hsql e).2.2, if_true]
  exact congrArg (Copies.mk w.metrics.activePlayers w.keys ·.players) hdb

/-- `open` leaves the copies alone, and succeeds. -/
theorem open_runs (hsql : ∀ e, (env e).sql.Works) {ok : Bool}
    (h : Runs (Call.execVia fp env) (invoke .dbOpen) w ok w') :
    ok = true ∧ w'.copies = w.copies := by
  obtain ⟨e, hok, rfl⟩ := invoke_runs h
  refine ⟨hok.trans (open_of_works (hsql e) w.db), ?_⟩
  exact congrArg (Copies.mk w.metrics.activePlayers w.keys)
    (Database.stored_open (env e).sql w.db).1

/-- Measuring and counting an operation on the database. -/
theorem recordDatabaseOperation_spares (duration : Int) (success b : Bool) :
    (MetricsRegistry.recordDatabaseOperation duration success >>= fun _ =>
      (pure b : Handler Bool)).Calls (Call.Spares true true true) :=
  (recordDatabaseOperation_calls (fun _ _ => trivial) (fun _ => trivial) duration success).bind
    fun _ => trivial

theorem upsertPlayer_runs (hsql : ∀ e, (env e).sql.Works) {playerId : Int32} {username : Bytes}
    {score kills : Int32} {ok : Bool}
    (h : Runs (Call.execVia fp env) (DatabaseManager.upsertPlayer playerId username score kills)
      w ok w') :
    w'.copies = { w.copies with rows := upserted playerId username score kills w.copies.rows } := by
  unfold DatabaseManager.upsertPlayer at h
  obtain ⟨opened, w₁, hopen, h₁⟩ := runs_bind.mp h
  obtain ⟨hopened, hcopies⟩ := open_runs hsql hopen
  subst hopened
  simp only [Bool.not_true, Bool.false_eq_true, if_false] at h₁
  obtain ⟨t0, w₂, hclock, h₂⟩ := runs_bind.mp h₁
  obtain ⟨e, -, rfl⟩ := invoke_runs hclock
  obtain ⟨outcome, w₃, hexecute, h₃⟩ := runs_bind.mp h₂
  have hrows := execute_runs hsql hexecute
  rw [players_apply_upsertPlayer] at hrows
  have hrest : w'.copies = w₃.copies := by
    cases outcome with
    | executed ok =>
      obtain ⟨t1, w₄, hclock', h₄⟩ := runs_bind.mp h₃
      obtain ⟨e', -, rfl⟩ := invoke_runs hclock'
      exact copies_runs (recordDatabaseOperation_spares _ _ _) h₄
    | _ => exact copies_runs (recordDatabaseOperation_spares _ _ _) h₃
  rw [hrest, hrows, ← hcopies]
  rfl

/-- An event is no row of a player. -/
theorem recordDbEvent_runs (hsql : ∀ e, (env e).sql.Works) {matchId : Bytes} {playerId : Int32}
    {eventType eventData : Bytes} {ok : Bool}
    (h : Runs (Call.execVia fp env)
      (DatabaseManager.recordEvent matchId playerId eventType eventData) w ok w') :
    w'.copies = w.copies := by
  unfold DatabaseManager.recordEvent at h
  obtain ⟨opened, w₁, hopen, h₁⟩ := runs_bind.mp h
  obtain ⟨hopened, hcopies⟩ := open_runs hsql hopen
  subst hopened
  simp only [Bool.not_true, Bool.false_eq_true, if_false] at h₁
  obtain ⟨t0, w₂, hclock, h₂⟩ := runs_bind.mp h₁
  obtain ⟨e, -, rfl⟩ := invoke_runs hclock
  obtain ⟨outcome, w₃, hexecute, h₃⟩ := runs_bind.mp h₂
  have hrest : w'.copies = w₃.copies := by
    cases outcome with
    | initFailed =>
      obtain ⟨-, rfl⟩ := runs_ret.mp h₃
      rfl
    | prepareFailed => exact copies_runs (recordDatabaseOperation_spares _ _ _) h₃
    | _ =>
      obtain ⟨t1, w₄, hclock', h₄⟩ := runs_bind.mp h₃
      obtain ⟨e', -, rfl⟩ := invoke_runs hclock'
      exact copies_runs (recordDatabaseOperation_spares _ _ _) h₄
  rw [hrest, execute_runs hsql hexecute, ← hcopies]
  rfl

/-- What the effects of a command leave in MySQL; `score` is the final score of a `LEAVE`. -/
def Command.rowsAfter (score : Int32) (rows : KeyedMap Int32 PlayerRow) :
    Command → KeyedMap Int32 PlayerRow
  | join playerId => upserted playerId (username playerId) 0 0 rows
  | leave playerId => upserted playerId (username playerId) score 0 rows
  | _ => rows

theorem storePlayer_runs (hdb : cfg.hasDb = true) (hsql : ∀ e, (env e).sql.Works)
    {playerId score : Int32} {eventType eventData : Bytes} {u : Unit}
    (h : Runs (Call.execVia fp env)
      (when cfg.hasDb (storePlayer playerId score eventType eventData)) w u w') :
    w'.copies.rows = upserted playerId (username playerId) score 0 w.copies.rows := by
  rw [hdb] at h
  obtain ⟨b₁, w₁, hupsert, hrest⟩ := runs_bind.mp h
  obtain ⟨b₂, w₂, hevent, hrest⟩ := runs_bind.mp hrest
  obtain ⟨-, rfl⟩ := runs_ret.mp hrest
  rw [recordDbEvent_runs hsql hevent, upsertPlayer_runs hsql hupsert]

theorem effects_rows (hdb : cfg.hasDb = true) (hsql : ∀ e, (env e).sql.Works)
    {c : Command} {x : c.call.Ans} {data : Bytes} {r : Json} {u : Unit}
    (hx : c.outcome x = .ok (data, r)) (h : Runs (Call.execVia fp env) (c.effects cfg x) w u w') :
    ∃ score, w'.copies.rows = c.rowsAfter score w.copies.rows ∧
      (∀ p, c = .leave p → r = leaveResponse p score) := by
  cases c with
  | join playerId =>
    obtain ⟨u₁, w₁, hupdate, hrest⟩ := runs_bind.mp h
    obtain ⟨u₂, w₂, hsession, hrest⟩ := runs_bind.mp hrest
    have hspares : (when cfg.cacheEnabled (cacheSession playerId)).Calls
        (Call.Spares false false true) :=
      when_calls (cacheSession_calls trivial (fun _ => rfl) playerId)
    refine ⟨0, ?_, fun p hp => by cases hp⟩
    rw [storePlayer_runs hdb hsql hrest, rows_runs hspares hsession,
      (updateActivePlayers_runs hupdate).2]
    rfl
  | leave playerId =>
    cases x with
    | error err => cases hx
    | ok finalScore =>
      obtain ⟨u₁, w₁, hupdate, hrest⟩ := runs_bind.mp h
      obtain ⟨u₂, w₂, hdelete, hrest⟩ := runs_bind.mp hrest
      have hspares : (discard (CacheManager.deletePlayerSession playerId)).Calls
          (Call.Spares false false true) := discard_invoke_calls (c := .redis _) rfl
      cases hx
      refine ⟨finalScore, ?_, fun p hp => by cases hp; rfl⟩
      rw [storePlayer_runs hdb hsql hrest, rows_runs (when_calls hspares) hdelete,
        (updateActivePlayers_runs hupdate).2]
      rfl
  | move playerId a b =>
    have hspares : (discard (CacheManager.setPlayerPosition playerId (clamp a mapMin mapMax)
        (clamp b mapMin mapMax))).Calls (Call.Spares false false true) :=
      discard_invoke_calls (c := .redis _) rfl
    refine ⟨0, ?_, fun p hp => by cases hp⟩
    exact rows_runs (when_calls hspares) h
  | _ =>
    obtain ⟨-, rfl⟩ := runs_ret.mp h
    exact ⟨0, rfl, fun p hp => by cases hp⟩

end Runs

/-! ## What the commands do to the players -/

/-- The map of players before and after each command. -/
def Command.Players (players players' : KeyedMap Int32 PlayerState) : Command → Prop
  | join p => p ∉ players ∧ ∃ joinedAt, players' = players.insert p { playerId := p, joinedAt }
  | move p x y => ∃ st, players.lookup p = some st ∧ players' = players.replace p
      { st with x := clamp x mapMin mapMax, y := clamp y mapMin mapMax }
  | attack p q => ∃ attacker target, p ≠ q ∧ players.lookup p = some attacker ∧
      players.lookup q = some target ∧
      players' = GameState.playersAfterAttack p q attacker target players
  | chat p _ => p ∈ players ∧ players' = players
  | updateScore p score => ∃ st, players.lookup p = some st ∧
      players' = players.replace p { st with score }
  | leave p => ∃ st, players.lookup p = some st ∧ players' = players.erase p

/-- **What a command that succeeds does to the players.**  It is told by the command alone, once it
is known that the command has succeeded. -/
theorem players_of_apply {c : Command} {now : Nat → Int} {g g' : GameState} {out : Bytes × Json}
    (h : c.apply now g = .ok (out, g')) : c.Players g.players g'.players := by
  cases c with
  | join p =>
    obtain ⟨g₁, hadd, heq⟩ := map_eq_ok h
    cases heq
    obtain ⟨hp, rfl⟩ := GameState.addPlayer_inv hadd
    exact ⟨hp, _, rfl⟩
  | move p x y =>
    obtain ⟨g₁, hmove, heq⟩ := map_eq_ok h
    cases heq
    obtain ⟨st, hst, rfl⟩ := GameState.modifyPlayer_inv hmove
    rw [clamp_clamp, clamp_clamp]
    exact ⟨st, hst, rfl⟩
  | attack p q =>
    obtain ⟨r, hattack, heq⟩ := map_eq_ok h
    cases heq
    obtain ⟨attacker, target, hne, hatt, htgt, rfl⟩ := GameState.attackPlayer_inv hattack
    exact ⟨attacker, target, hne, hatt, htgt, rfl⟩
  | chat p message =>
    rw [Command.apply] at h
    split at h
    · cases h
      exact ⟨of_decide_eq_true ‹_›, rfl⟩
    · cases h
  | updateScore p score =>
    obtain ⟨g₁, hset, heq⟩ := map_eq_ok h
    cases heq
    obtain ⟨st, hst, rfl⟩ := GameState.modifyPlayer_inv hset
    exact ⟨st, hst, rfl⟩
  | leave p =>
    obtain ⟨r, hremove, heq⟩ := map_eq_ok h
    cases heq
    obtain ⟨st, hst, rfl⟩ := GameState.removePlayer_inv hremove
    exact ⟨st, hst, GameState.players_finishIfEmpty _⟩

theorem modifyPlayer_of_lookup {g : GameState} {p : Int32} {st : PlayerState}
    (hst : g.players.lookup p = some st) (f : PlayerState → PlayerState) :
    g.modifyPlayer p f = .ok { g with players := g.players.replace p (f st) } := by
  rw [GameState.modifyPlayer, hst]

/-- **A command that can do something to the players succeeds.**  What the methods check is what the
relation asks of the players before. -/
theorem apply_of_players {c : Command} {g : GameState} {players' : KeyedMap Int32 PlayerState}
    (h : c.Players g.players players') (now : Nat → Int) : ∃ out, c.apply now g = .ok out := by
  cases c with
  | join p =>
    rw [Command.apply, GameState.addPlayer, if_neg h.1]
    simp only
    split
    · exact ⟨_, rfl⟩
    · exact ⟨_, rfl⟩
  | move p x y =>
    obtain ⟨st, hst, -⟩ := h
    rw [Command.apply, GameState.movePlayer, modifyPlayer_of_lookup hst]
    exact ⟨_, rfl⟩
  | attack p q =>
    obtain ⟨attacker, target, hne, hatt, htgt, -⟩ := h
    rw [Command.apply, GameState.attackPlayer_of_lookup hne hatt htgt]
    exact ⟨_, rfl⟩
  | chat p message =>
    have hpresent : g.hasPlayer p = true := decide_eq_true h.1
    rw [Command.apply, if_pos hpresent]
    exact ⟨_, rfl⟩
  | updateScore p score =>
    obtain ⟨st, hst, -⟩ := h
    rw [Command.apply, GameState.setScore, modifyPlayer_of_lookup hst]
    exact ⟨_, rfl⟩
  | leave p =>
    obtain ⟨st, hst, -⟩ := h
    rw [Command.apply, GameState.removePlayer, hst]
    exact ⟨_, rfl⟩

/-- **An `ATTACK` that takes a player out of the game**: attacker and target are there and not the
same, and one more hit leaves the target no health. -/
def Command.Eliminates (players : KeyedMap Int32 PlayerState) (q : Int32) (target : PlayerState)
    (c : Command) : Prop :=
  ∃ p, c = .attack p q ∧ p ≠ q ∧ p ∈ players ∧ players.lookup q = some target ∧
    Arena.Lethal target.standing

/-- The attack succeeds. -/
theorem Command.players_of_eliminates {players : KeyedMap Int32 PlayerState} {q : Int32}
    {target : PlayerState} {c : Command} (h : c.Eliminates players q target) :
    ∃ players', c.Players players players' := by
  obtain ⟨p, rfl, hne, hp, htgt, -⟩ := h
  obtain ⟨attacker, hatt⟩ := Option.isSome_iff_exists.mp (AList.lookup_isSome.mpr hp)
  exact ⟨_, attacker, target, hne, hatt, htgt, rfl⟩

/-- The same of a payload. -/
def Eliminates (rawJson : Bytes) (g : GameState) (q : Int32) (target : PlayerState) : Prop :=
  ∃ c, Request.decode rawJson = .command c ∧ c.Eliminates g.players q target

section Members

variable {players players' : KeyedMap Int32 PlayerState} {c : Command}

/-- Whom a command brings in and takes out. -/
theorem mem_of_players (h : c.Players players players') (id : Int32) :
    id ∈ players' ↔ match c with
      | .join p => id = p ∨ id ∈ players
      | .leave p => id ≠ p ∧ id ∈ players
      | .attack _ q => (∀ target, c.Eliminates players q target → id ≠ q) ∧ id ∈ players
      | _ => id ∈ players := by
  cases c with
  | join p =>
    obtain ⟨-, joinedAt, rfl⟩ := h
    exact AList.mem_insert _
  | leave p =>
    obtain ⟨st, -, rfl⟩ := h
    exact AList.mem_erase
  | move p x y =>
    obtain ⟨st, -, rfl⟩ := h
    exact AList.mem_replace
  | updateScore p score =>
    obtain ⟨st, -, rfl⟩ := h
    exact AList.mem_replace
  | chat p message =>
    obtain ⟨-, rfl⟩ := h
    exact Iff.rfl
  | attack p q =>
    obtain ⟨attacker, target, hne, hatt, htgt, rfl⟩ := h
    unfold GameState.playersAfterAttack
    simp only
    by_cases hlethal : Arena.Lethal target.standing
    · have helim : ∀ target', (Command.attack p q).Eliminates players q target' ↔
          target' = target := by
        intro target'
        constructor
        · rintro ⟨p', -, -, -, htgt', -⟩
          rw [htgt] at htgt'
          exact (Option.some.inj htgt').symm
        · rintro rfl
          exact ⟨p, rfl, hne, KeyedMap.mem_of_lookup hatt, htgt, hlethal⟩
      rw [if_pos hlethal, AList.mem_erase, AList.mem_replace]
      simp [helim]
    · have hno : ∀ target', ¬ (Command.attack p q).Eliminates players q target' := by
        rintro target' ⟨p', -, -, -, htgt', hlethal'⟩
        rw [htgt] at htgt'
        cases htgt'
        exact hlethal hlethal'
      rw [if_neg hlethal, AList.mem_replace, AList.mem_replace]
      simp [hno]

/-- How many players there are after a command. -/
theorem size_of_players (h : c.Players players players') :
    (∃ p, c = .join p ∧ players'.size = players.size + 1) ∨
      (∃ p, c = .leave p ∧ players'.size + 1 = players.size) ∨
      (∃ q target, c.Eliminates players q target ∧ players'.size + 1 = players.size) ∨
      (players'.size = players.size ∧ (∀ p, c ≠ .join p) ∧ (∀ p, c ≠ .leave p) ∧
        ∀ q target, ¬ c.Eliminates players q target) := by
  have hother : (∀ p q, c ≠ .attack p q) → ∀ q target, ¬ c.Eliminates players q target :=
    fun hc q target ⟨p, heq, _⟩ => hc p q heq
  cases c with
  | join p =>
    obtain ⟨hp, joinedAt, rfl⟩ := h
    exact Or.inl ⟨p, rfl, KeyedMap.size_insert hp _⟩
  | leave p =>
    obtain ⟨st, hst, rfl⟩ := h
    exact Or.inr (Or.inl ⟨p, rfl, KeyedMap.size_erase (KeyedMap.mem_of_lookup hst)⟩)
  | move p x y =>
    obtain ⟨st, -, rfl⟩ := h
    exact Or.inr (Or.inr (Or.inr ⟨KeyedMap.size_replace _ _ _, by simp, by simp,
      hother (by simp)⟩))
  | updateScore p score =>
    obtain ⟨st, -, rfl⟩ := h
    exact Or.inr (Or.inr (Or.inr ⟨KeyedMap.size_replace _ _ _, by simp, by simp,
      hother (by simp)⟩))
  | chat p message =>
    obtain ⟨-, rfl⟩ := h
    exact Or.inr (Or.inr (Or.inr ⟨rfl, by simp, by simp, hother (by simp)⟩))
  | attack p q =>
    obtain ⟨attacker, target, hne, hatt, htgt, rfl⟩ := h
    unfold GameState.playersAfterAttack
    simp only
    by_cases hlethal : Arena.Lethal target.standing
    · refine Or.inr (Or.inr (Or.inl ⟨q, target, ⟨p, rfl, hne, KeyedMap.mem_of_lookup hatt, htgt,
        hlethal⟩, ?_⟩))
      rw [if_pos hlethal, KeyedMap.size_erase (AList.mem_replace.mpr (KeyedMap.mem_of_lookup htgt)),
        KeyedMap.size_replace]
    · refine Or.inr (Or.inr (Or.inr ⟨?_, by simp, by simp, ?_⟩))
      · rw [if_neg hlethal, KeyedMap.size_replace, KeyedMap.size_replace]
      · rintro q' target' ⟨p', heq, -, -, htgt', hlethal'⟩
        cases heq
        rw [htgt] at htgt'
        cases htgt'
        exact hlethal hlethal'

end Members

end MultiPlayerGame
