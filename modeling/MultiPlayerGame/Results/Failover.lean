import MultiPlayerGame.Server.Serving
import MultiPlayerGame.Server.Deeds

/-!
# Without Redis and MySQL

What the cache and the database do should not be seen in the game: a server that has both, whatever
they answer and however they fail, should answer and change as a server that has neither.

Two servers do not read the same clock, so they are compared apart from the times in a state
(`GameState.timeless`) and the fields of a response that hold durations (`Json.untimed`).  Then one
function says how a request is settled without any cache or database (`Request.settle`), and a
request that is served by the rules of `Responds` is settled so, with one exception: a `GET_STATE`
for which the Redis client throws.  It does so exactly on a reply that begins like a string but has
a length that is no `int` (`Garbled`).

## Why it holds

The rules of `Responds` do not mention the cache and the database, apart from one: that of a
`GET_STATE` whose reply cannot be read.  So two servers in the same game state answer a request in
the same way as long as that rule is not used, whatever else their Redis and MySQL do.
`Request.settle` says how, and both servers are compared with it, not with each other.

The condition is on what arrives from the network while a `GET` is executed, so it is one on single
calls (`Call.Readable`) and not on runs.  It is carried into the runs by `Program.ServedWhere`.

## Why the times are left out

The two servers are two processes.  A player joins at different times on their clocks, and what a
snapshot says about how long a player has been there depends on when it is taken.  Nothing in the
game depends on a time, which is what the lemmas about `timeless` show for each operation.
-/

namespace MultiPlayerGame

open Bytes (ascii)
open Json (obj int)
open Program (Runs RunsWhere Served ServedWhere)
open RequestHandler

/-! ## Leaving out the times -/

namespace Json

mutual

/-- Put `null` into all fields with certain names. -/
def blank (p : Bytes → Bool) : Json → Json
  | array items => array (blankItems p items)
  | object fields => object (blankFields p fields)
  | j => j

def blankItems (p : Bytes → Bool) : List Json → List Json
  | [] => []
  | v :: rest => blank p v :: blankItems p rest

def blankFields (p : Bytes → Bool) : List (Bytes × Json) → List (Bytes × Json)
  | [] => []
  | (k, v) :: rest => (k, if p k then null else blank p v) :: blankFields p rest

end

section Blank

variable (p : Bytes → Bool)

theorem blankItems_eq (items : List Json) : blankItems p items = items.map (blank p) := by
  induction items with
  | nil => rfl
  | cons v rest ih => rw [blankItems, List.map_cons, ih]

theorem blankFields_setField (key : Bytes) (value : Json) (fields : List (Bytes × Json)) :
    blankFields p (setField key value fields) =
      setField key (if p key then null else blank p value) (blankFields p fields) := by
  induction fields with
  | nil => rfl
  | cons f rest ih =>
    obtain ⟨k, v⟩ := f
    rw [setField, blankFields, setField]
    by_cases hlt : key < k
    · rw [if_pos hlt, if_pos hlt, blankFields, blankFields]
    rw [if_neg hlt, if_neg hlt]
    by_cases heq : key = k
    · rw [if_pos heq, if_pos heq, blankFields]
    · rw [if_neg heq, if_neg heq, blankFields, ih]

theorem blank_obj (fields : List (String × Json)) :
    (obj fields).blank p =
      obj (fields.map fun f => (f.1, if p (ascii f.1) then null else f.2.blank p)) := by
  refine congrArg object ?_
  induction fields with
  | nil => rfl
  | cons f rest ih => rw [List.foldr_cons, blankFields_setField, ih, List.map_cons, List.foldr_cons]

theorem blank_set (j : Json) (key : Bytes) (value : Json) :
    (j.set key value).blank p = (j.blank p).set key (if p key then null else value.blank p) := by
  cases j with
  | object fields => exact congrArg object (blankFields_setField p key value fields)
  | _ => rfl

end Blank

/-- The fields that hold durations. -/
def timeField (key : Bytes) : Bool := key = ascii "session_s" || key = ascii "elapsed_seconds"

/-- A response apart from the durations in it.  Two servers that do not read the same clock can be
compared by what is left. -/
def untimed (j : Json) : Json := j.blank timeField

end Json

def PlayerState.timeless (p : PlayerState) : PlayerState := { p with joinedAt := 0 }

def GameEvent.timeless (ev : GameEvent) : GameEvent := { ev with timestamp := 0 }

namespace GameState

/-- A game state apart from the times in it. -/
def timeless (g : GameState) : GameState :=
  { g with
    players := g.players.map PlayerState.timeless
    events := g.events.map GameEvent.timeless
    matchStart := 0 }

/-! ### The operations of the game do not depend on the times -/

theorem timeless_finishIfEmpty (g : GameState) :
    g.finishIfEmpty.timeless = g.timeless.finishIfEmpty := by
  have hsize : g.timeless.players.size = g.players.size := KeyedMap.size_map _ _
  unfold finishIfEmpty
  rw [hsize]
  by_cases h : g.status = .active ∧ g.players.size = 0
  · have h' : g.timeless.status = .active ∧ g.players.size = 0 := h
    rw [if_pos h, if_pos h']
    rfl
  · have h' : ¬ (g.timeless.status = .active ∧ g.players.size = 0) := h
    rw [if_neg h, if_neg h']

theorem timeless_addPlayer (playerId : Int32) (now : Nat → Int) (g : GameState) :
    (g.addPlayer playerId now).map timeless = g.timeless.addPlayer playerId fun _ => 0 := by
  have hmem : playerId ∈ g.timeless.players ↔ playerId ∈ g.players := KeyedMap.mem_map _ _ _
  unfold addPlayer
  rw [if_congr hmem rfl rfl]
  by_cases h : playerId ∈ g.players
  · rw [if_pos h, if_pos h]
    rfl
  rw [if_neg h, if_neg h]
  have hinsert := KeyedMap.map_insert PlayerState.timeless g.players playerId
    { playerId, joinedAt := now 0 }
  by_cases hwaiting : g.status = .waiting
  · have hwaiting' : g.timeless.status = .waiting := hwaiting
    simp only
    rw [if_pos hwaiting, if_pos hwaiting', Except.map, timeless, hinsert]
    rfl
  · have hwaiting' : ¬ g.timeless.status = .waiting := hwaiting
    simp only
    rw [if_neg hwaiting, if_neg hwaiting', Except.map, timeless, hinsert]
    rfl

theorem timeless_removePlayer (playerId : Int32) (g : GameState) :
    (g.removePlayer playerId).map (Prod.map id timeless) = g.timeless.removePlayer playerId := by
  have hlookup : g.timeless.players.lookup playerId =
      (g.players.lookup playerId).map PlayerState.timeless := KeyedMap.lookup_map _ _ _
  unfold removePlayer
  rw [hlookup]
  cases g.players.lookup playerId with
  | none => rfl
  | some p =>
    have herase := KeyedMap.map_erase PlayerState.timeless g.players playerId
    simp only [Except.map, Prod.map, timeless_finishIfEmpty, Option.map_some]
    rw [timeless, herase]
    rfl

theorem timeless_modifyPlayer {f : PlayerState → PlayerState}
    (hf : ∀ p, (f p).timeless = f p.timeless) (playerId : Int32) (g : GameState) :
    (g.modifyPlayer playerId f).map timeless = g.timeless.modifyPlayer playerId f := by
  have hlookup : g.timeless.players.lookup playerId =
      (g.players.lookup playerId).map PlayerState.timeless := KeyedMap.lookup_map _ _ _
  unfold modifyPlayer
  rw [hlookup]
  cases g.players.lookup playerId with
  | none => rfl
  | some p =>
    have hreplace := KeyedMap.map_replace PlayerState.timeless g.players playerId (f p)
    simp only [Except.map, Option.map_some]
    rw [timeless, hreplace, hf]
    rfl

theorem timeless_movePlayer (playerId x y : Int32) (g : GameState) :
    (g.movePlayer playerId x y).map timeless = g.timeless.movePlayer playerId x y :=
  timeless_modifyPlayer
    (f := fun p => { p with x := clamp x mapMin mapMax, y := clamp y mapMin mapMax })
    (fun _ => rfl) playerId g

theorem timeless_setScore (playerId score : Int32) (g : GameState) :
    (g.setScore playerId score).map timeless = g.timeless.setScore playerId score :=
  timeless_modifyPlayer (f := fun p => { p with score }) (fun _ => rfl) playerId g

theorem timeless_attackPlayer (attackerId targetId : Int32) (g : GameState) :
    (g.attackPlayer attackerId targetId).map (Prod.map id timeless) =
      g.timeless.attackPlayer attackerId targetId := by
  have hlookup : ∀ p, g.timeless.players.lookup p =
      (g.players.lookup p).map PlayerState.timeless := KeyedMap.lookup_map _ _
  unfold attackPlayer
  by_cases hself : attackerId = targetId
  · rw [if_pos hself, if_pos hself]
    rfl
  rw [if_neg hself, if_neg hself, hlookup, hlookup]
  cases g.players.lookup attackerId with
  | none => rfl
  | some attacker =>
    cases g.players.lookup targetId with
    | none => rfl
    | some target =>
      simp only [Option.map_some]
      by_cases hlethal : GameState.max 0 (target.health - attackDamage) = 0
      · have hlethal' : GameState.max 0 (target.timeless.health - attackDamage) = 0 := hlethal
        rw [if_pos hlethal, if_pos hlethal']
        simp only [Except.map, Prod.map, timeless_finishIfEmpty]
        rw [timeless, KeyedMap.map_erase, KeyedMap.map_replace]
        rfl
      · have hlethal' : ¬ GameState.max 0 (target.timeless.health - attackDamage) = 0 := hlethal
        rw [if_neg hlethal, if_neg hlethal']
        simp only [Except.map, Prod.map]
        rw [timeless, KeyedMap.map_replace, KeyedMap.map_replace]
        rfl

theorem timeless_pushEvent (ev : GameEvent) (g : GameState) :
    (g.pushEvent ev).timeless = g.timeless.pushEvent ev.timeless := by
  have hevents : g.timeless.events ++ [ev.timeless] =
      (g.events ++ [ev]).map GameEvent.timeless := by
    rw [List.map_append]
    rfl
  unfold pushEvent
  simp only
  rw [hevents, List.length_map]
  by_cases hfull : maxEvents < (g.events ++ [ev]).length
  · rw [if_pos hfull, if_pos hfull, ← List.map_tail]
    rfl
  · rw [if_neg hfull, if_neg hfull]
    rfl

theorem timeless_record (playerId : Int32) (eventType data : Bytes) (timestamp : Int)
    (g : GameState) :
    (g.record playerId eventType data timestamp).timeless =
      g.timeless.record playerId eventType data 0 :=
  timeless_pushEvent _ _

theorem untimed_playerJson (fp : Doubles) (now now' : Int) (p : PlayerState) :
    (playerJson fp now p).untimed = (playerJson fp now' p.timeless).untimed := by
  rw [playerJson, playerJson, Json.untimed, Json.untimed, Json.blank_obj, Json.blank_obj]
  simp +decide [Json.timeField, PlayerState.timeless]

/-- The snapshots of two states that are the same apart from times are the same apart from times. -/
theorem untimed_snapshot (fp : Doubles) (now now' : Nat → Int) (g : GameState) :
    (g.snapshot fp now).untimed = (g.timeless.snapshot fp now').untimed := by
  have hplayers : (Json.array (g.players.entries.mapIdx fun i e => playerJson fp (now i) e.2)).blank
        Json.timeField = (Json.array (g.timeless.players.entries.mapIdx fun i e =>
          playerJson fp (now' i) e.2)).blank Json.timeField := by
    have hentries : g.timeless.players.entries =
        g.players.entries.map fun e => ⟨e.1, e.2.timeless⟩ := rfl
    rw [Json.blank, Json.blank, Json.blankItems_eq, Json.blankItems_eq, hentries]
    refine congrArg Json.array (List.ext_getElem? fun i => ?_)
    simp only [List.getElem?_map, List.getElem?_mapIdx, Option.map_map]
    exact congrArg (Option.map · _) (funext fun e => untimed_playerJson fp (now i) (now' i) e.2)
  have hevents : (g.recentEvents 5).map eventJson = (g.timeless.recentEvents 5).map eventJson := by
    have htimeless : g.timeless.recentEvents 5 = (g.recentEvents 5).map GameEvent.timeless := by
      simp [recentEvents, timeless]
    rw [htimeless, List.map_map]
    rfl
  have hsize : g.timeless.players.size = g.players.size := KeyedMap.size_map _ _
  rw [snapshot, snapshot, Json.untimed, Json.untimed, Json.blank_obj, Json.blank_obj, hsize,
    ← hevents]
  simp +decide only [List.map_cons, hplayers]
  rfl

end GameState

theorem Command.timeless_apply (now : Nat → Int) (g : GameState) (c : Command) :
    (c.apply now g).map (Prod.map id GameState.timeless) = c.apply (fun _ => 0) g.timeless := by
  cases c with
  | join playerId =>
    rw [apply, apply, ← GameState.timeless_addPlayer playerId now]
    cases g.addPlayer playerId now <;> rfl
  | move playerId x y =>
    rw [apply, apply, ← GameState.timeless_movePlayer]
    cases g.movePlayer playerId _ _ <;> rfl
  | attack playerId targetId =>
    rw [apply, apply, ← GameState.timeless_attackPlayer]
    cases g.attackPlayer playerId targetId <;> rfl
  | chat playerId message =>
    have hpresent : g.timeless.hasPlayer playerId = g.hasPlayer playerId :=
      decide_eq_decide.mpr (KeyedMap.mem_map _ _ _)
    rw [apply, apply, hpresent]
    cases g.hasPlayer playerId <;> rfl
  | updateScore playerId score =>
    rw [apply, apply, ← GameState.timeless_setScore]
    cases g.setScore playerId score <;> rfl
  | leave playerId =>
    rw [apply, apply, ← GameState.timeless_removePlayer]
    cases g.removePlayer playerId <;> rfl

theorem untimed_succeed (action : String) (j : Json) :
    (succeed action j).untimed = succeed action j.untimed := by
  rw [succeed, Json.untimed, Json.blank_set, Json.blank_set]
  simp +decide only
  rfl

/-! ## Settling a request -/

/-- How a request is settled where there is no cache, no database and no clock.  The dump of the
metrics is left out. -/
def Request.settle (fp : Doubles) (g : GameState) : Request → Json × GameState
  | refused message => (errorResponse message, g)
  | command c =>
    match c.apply (fun _ => 0) g with
    | .error err => (errorResponse err, g)
    | .ok ((data, response), g') =>
      (response, g'.record c.playerId (ascii c.action.name) data 0)
  | getState none => (succeed "GET_STATE" (g.snapshot fp fun _ => 0), g)
  | getState (some playerId) =>
    if playerId ∈ g.players then (succeed "GET_STATE" (g.snapshot fp fun _ => 0), g)
    else (errorResponse (GameState.notInGame playerId), g)
  | getMetrics => (.null, g)

/-- **A request that is served by the rules, with a Redis client that does not throw, is settled as
if there were no Redis and no MySQL.** -/
theorem settle_of_responds {fp : Doubles} {q : Request} {g g' : GameState} {r : Json}
    (h : Responds fp False q g r g') :
    g'.timeless = (q.settle fp g.timeless).2 ∧
      (q ≠ .getMetrics → r.untimed = (q.settle fp g.timeless).1.untimed) := by
  have hmem : ∀ p, p ∈ g.timeless.players ↔ p ∈ g.players := KeyedMap.mem_map _ _
  cases h with
  | refused message => exact ⟨rfl, fun _ => rfl⟩
  | rejected c now _ err happly =>
    have hsettle := c.timeless_apply now g
    rw [happly] at hsettle
    rw [Request.settle, ← hsettle]
    exact ⟨rfl, fun _ => rfl⟩
  | done c now _ g₁ data response timestamp happly =>
    have hsettle := c.timeless_apply now g
    rw [happly] at hsettle
    rw [Request.settle, ← hsettle]
    exact ⟨GameState.timeless_record _ _ _ _ _, fun _ => rfl⟩
  | absent playerId _ hno =>
    rw [Request.settle, if_neg (mt (hmem playerId).mp hno)]
    exact ⟨rfl, fun _ => rfl⟩
  | unread playerId _ _ bad => exact bad.elim
  | state playerId now _ hpresent =>
    have hstate : (succeed "GET_STATE" (g.snapshot fp now)).untimed =
        (succeed "GET_STATE" (g.timeless.snapshot fp fun _ => 0)).untimed := by
      rw [untimed_succeed, untimed_succeed, GameState.untimed_snapshot fp now fun _ => 0]
    cases playerId with
    | none => exact ⟨rfl, fun _ => hstate⟩
    | some playerId =>
      rw [Request.settle, if_pos ((hmem playerId).mpr (hpresent playerId rfl))]
      exact ⟨rfl, fun _ => hstate⟩
  | metrics m => exact ⟨rfl, fun hno => absurd rfl hno⟩

/-! ## A request to a server whose Redis client does not throw -/

/-- The reply to a `GET` does not make the Redis client throw. -/
def Call.Readable (cfg : Config) : Call → Env → World → Prop
  | .redisGet key, e, w => cfg.cacheEnabled = true → ¬ w.pool.Garbled e.net key
  | _, _, _ => True

section Readable

variable {cfg : Config} {fp : Doubles} {w w' : World}

theorem reply_serves_where {P : Call → Env → World → Prop} {rawJson : Bytes} {r : Json}
    (h : RunsWhere P (Call.exec fp) (reply cfg fp rawJson) w r w') :
    ∃ w₁ w₂, RunsWhere P (Call.exec fp) ((Request.decode rawJson).serve cfg fp) w₁ r w₂ := by
  rw [reply, Program.perform_bind] at h
  obtain ⟨_, -, htimed⟩ := h.call_inv
  obtain ⟨r', w₁, hanswer, hrest⟩ := htimed.bind_inv
  rw [Program.perform_bind] at hrest
  obtain ⟨_, -, hrest⟩ := hrest.call_inv
  obtain ⟨_, _, -, hreturn⟩ := hrest.bind_inv
  obtain ⟨rfl, -⟩ := hreturn.ret_inv
  rw [Request.answer_eq] at hanswer
  obtain ⟨_, w₃, -, hrest⟩ := hanswer.bind_inv
  obtain ⟨r', w₄, hserve, hrest⟩ := hrest.bind_inv
  obtain ⟨_, _, -, hreturn⟩ := hrest.bind_inv
  obtain ⟨rfl, -⟩ := hreturn.ret_inv
  exact ⟨w₃, w₄, hserve⟩

theorem getPlayerSession_where {playerId : Int32} {s : Except Unit (Option Json)}
    (hcache : cfg.cacheEnabled = true)
    (h : RunsWhere (Call.Readable cfg) (Call.exec fp) (CacheManager.getPlayerSession playerId) w s
      w') : s ≠ .error () := by
  obtain ⟨e, hreadable, h⟩ := h.call_inv
  have hno := mt (w.pool.get_error_iff e.net _).mp (hreadable hcache)
  change RunsWhere (Call.Readable cfg) (Call.exec fp) (CacheManager.readSession
    (w.pool.withConnection (RedisConnection.get (CacheManager.sessionKey playerId)) e.net).1) _ s
      w' at h
  cases hreply : (w.pool.withConnection (RedisConnection.get
      (CacheManager.sessionKey playerId)) e.net).1 with
  | error u => exact absurd hreply hno
  | ok value =>
    have hreads : (CacheManager.readSession (.ok value)).Returns (· ≠ .error ()) := by
      unfold CacheManager.readSession
      simp only
      split
      · exact fun _ hno => by cases hno
      · exact fun _ hno => by cases hno
    rw [hreply] at h
    exact hreads.runs h.runs

theorem errorResponse_injective {m m' : Bytes} (h : errorResponse m = errorResponse m') :
    m = m' := by
  have hmessage : ∀ t, (errorResponse t).field? (ascii "message") = some (.string t) := fun t => by
    simp +decide [errorResponse]
  have := congrArg (Json.field? (ascii "message")) h
  rw [hmessage, hmessage] at this
  cases this
  rfl

theorem isOk_snapshot (now : Nat → Int) (g : GameState) :
    isOk (succeed "GET_STATE" (g.snapshot fp now)) = true := isOk_succeed _ _

/-- The answer to a `GET_STATE` for a player is not that of an exception. -/
theorem getState_where {playerId : Int32} {r : Json}
    (h : RunsWhere (Call.Readable cfg) (Call.exec fp)
      ((Request.getState (some playerId)).serve cfg fp) w r w') :
    r ≠ errorResponse (ascii "internal server error") := by
  have hstate : ∀ {w s w'}, RunsWhere (Call.Readable cfg) (Call.exec fp) stateResponse w s w' →
      ∃ now, ∃ g : GameState, s = .ok (succeed "GET_STATE" (g.snapshot fp now)) := fun h => by
    have hruns : Runs (Call.execVia fp id) stateResponse _ _ _ := h.runs
    obtain ⟨_, e, rfl⟩ := stateResponse_runs hruns
    exact ⟨_, _, rfl⟩
  obtain ⟨e, -, h⟩ := h.call_inv
  change RunsWhere (Call.Readable cfg) (Call.exec fp) (do
    let r ← Request.stateHandler cfg playerId (w.game.hasPlayer playerId)
    orInternalError r) w r w' at h
  obtain ⟨s, w₁, hs, hresponse⟩ := h.bind_inv
  suffices hanswer : s = .ok (errorResponse (GameState.notInGame playerId)) ∨
      ∃ now, ∃ g : GameState, s = .ok (succeed "GET_STATE" (g.snapshot fp now)) by
    rcases hanswer with rfl | ⟨now, g, rfl⟩
    · obtain ⟨rfl, -⟩ := hresponse.ret_inv
      intro hinternal
      have hfirst : (GameState.notInGame playerId).head? = some 0x70 := rfl
      rw [errorResponse_injective hinternal] at hfirst
      exact absurd hfirst (by decide)
    · obtain ⟨rfl, -⟩ := hresponse.ret_inv
      intro hinternal
      have hok := @isOk_snapshot fp now g
      rw [hinternal, Request.isOk_errorResponse] at hok
      cases hok
  generalize w.game.hasPlayer playerId = present at hs
  cases present with
  | false => exact Or.inl hs.ret_inv.1
  | true =>
    rw [Request.stateHandler] at hs
    by_cases hcache : cfg.cacheEnabled = true
    · rw [if_pos hcache] at hs
      obtain ⟨session, w₂, hlookup, hs⟩ := hs.bind_inv
      have hsession := getPlayerSession_where hcache hlookup
      cases session with
      | error u => exact absurd rfl hsession
      | ok found => exact Or.inr (hstate hs)
    · rw [if_neg hcache] at hs
      exact Or.inr (hstate hs)

/-- **The rules are followed**, and the rule for a reply that cannot be read is not needed. -/
theorem responds_of_readable {rawJson : Bytes} {r : Json}
    (h : RunsWhere (Call.Readable cfg) (Call.exec fp) (reply cfg fp rawJson) w r w') :
    Responds fp False (Request.decode rawJson) w.game r w'.game := by
  have hruns : Runs (Call.execVia fp id) (reply cfg fp rawJson) w r w' := h.runs
  obtain ⟨w₁, w₂, hserve⟩ := reply_serves_where h
  have hresponds := (reply_responds hruns).1
  generalize Request.decode rawJson = q at hserve hresponds
  generalize w.game = g at hresponds
  generalize w'.game = g' at hresponds
  cases hresponds with
  | refused message => exact .refused message g
  | rejected c now _ err happly => exact .rejected c now g err happly
  | done c now _ g₁ data r timestamp happly => exact .done c now g g₁ data r timestamp happly
  | absent playerId _ hno => exact .absent playerId g hno
  | state playerId now _ hpresent => exact .state playerId now g hpresent
  | metrics m _ hexport => exact .metrics m g hexport
  | unread playerId _ hpresent _ => exact absurd rfl (getState_where hserve)

end Readable

/-! ## The two servers -/

/-- Two servers were sent the same requests and gave the same answers, apart from durations and from
what they said about their metrics. -/
def SameAnswers : List (Bytes × Json) → List (Bytes × Json) → Prop :=
  List.Forall₂ fun e e' => e.1 = e'.1 ∧
    (Request.decode e.1 ≠ .getMetrics → e.2.untimed = e'.2.untimed)

/-- A server without cache and database.  Whatever comes from the network does not reach it. -/
def alone : Config := ⟨false, false⟩

theorem responds_alone {fp : Doubles} {rawJson : Bytes} {v v' : World} {r : Json}
    (h : Runs (Call.exec fp) (reply alone fp rawJson) v r v') :
    Responds fp False (Request.decode rawJson) v.game r v'.game := by
  refine responds_of_readable (h.where_true fun c e s => ?_)
  cases c with
  | redisGet key => exact fun hcache => by cases hcache
  | _ => trivial

/-- **Redis and MySQL are not seen in the game.**  Two servers that start alike are sent the same
requests, one after another.  The one has a cache and a database, or one of them, which do whatever
they like, only that no reply to a `GET` makes the Redis client throw; the other has neither.  Then
their answers are the same, and so are their game states. -/
theorem game_uninfluenced {cfg : Config} {fp : Doubles} {w₀ w v₀ v : World}
    {history history' : List (Bytes × Json)} (hstart : w₀.game.timeless = v₀.game.timeless)
    (h : ServedWhere (Call.Readable cfg) (reply cfg fp) (Call.exec fp) w₀ history w)
    (h' : Served (reply alone fp) (Call.exec fp) v₀ history' v)
    (hsame : history.map Prod.fst = history'.map Prod.fst) :
    SameAnswers history history' ∧ w.game.timeless = v.game.timeless := by
  induction h generalizing history' v with
  | nil =>
    have hnil : history' = [] := by simpa using hsame.symm
    subst hnil
    rw [h'.nil_inv]
    exact ⟨.nil, hstart⟩
  | snoc before last ih =>
    rename_i past w₁ w₂ rawJson r
    rcases List.eq_nil_or_concat history' with rfl | ⟨past', ⟨rawJson', r'⟩, rfl⟩
    · simp at hsame
    rw [List.concat_eq_append, List.map_append, List.map_append] at hsame
    obtain ⟨hpast, hlast⟩ := List.append_inj' hsame rfl
    cases hlast
    rw [List.concat_eq_append] at h'
    obtain ⟨v₁, before', last'⟩ := h'.snoc_inv
    obtain ⟨hanswers, hgame⟩ := ih before' hpast
    obtain ⟨hstate, hresponse⟩ := settle_of_responds (responds_of_readable last)
    obtain ⟨hstate', hresponse'⟩ := settle_of_responds (responds_alone last')
    rw [hgame] at hstate hresponse
    refine ⟨?_, hstate.trans hstate'.symm⟩
    rw [List.concat_eq_append]
    exact List.rel_append hanswers
      (.cons ⟨rfl, fun hmetrics => (hresponse hmetrics).trans (hresponse' hmetrics).symm⟩ .nil)

def stateOfZero : Bytes := ascii "\x7b\"action\":\"GET_STATE\",\"player_id\":0\x7d"

/-- Redis answers a `GET` of the session of player 0. -/
def replying (text : Bytes) : Env where
  executed := true
  net :=
    { connects := [true]
      sends := [(RedisConnection.wire [ascii "GET", ascii "session:player:0"]).length]
      arrivals := text.map some }

/-- The session is the text of an empty object. -/
def readableSession : Env := replying (ascii "$2\r\n\x7b\x7d\r\n")

/-- The length of the string that Redis answers with is `x`. -/
def garbling : Env := replying (ascii "$x\r\n")

/-- The answers of a server to a player who joins and then asks for the state. -/
def answersToZero (cfg : Config) (e : Env) : List (Bytes × Json) :=
  [joinZero, stateOfZero].zip (Program.serve (reply cfg .zero) (fun c => Call.exec .zero c e)
    [joinZero, stateOfZero] .started).1

theorem served_answersToZero (cfg : Config) (e : Env) : ∃ w,
    Served (reply cfg .zero) (Call.exec .zero) .started (answersToZero cfg e) w :=
  ⟨_, Program.served_serve (reply cfg .zero) (Call.exec .zero) e [joinZero, stateOfZero] .started⟩

theorem servedWhere_answersToZero {cfg : Config} {e : Env}
    (he : ∀ c w, Call.Readable cfg c e w) : ∃ w, ServedWhere (Call.Readable cfg)
      (reply cfg .zero) (Call.exec .zero) .started (answersToZero cfg e) w :=
  ⟨_, Program.servedWhere_serve (reply cfg .zero) (Call.exec .zero) he [joinZero, stateOfZero]
    .started⟩

theorem requests_answersToZero (cfg : Config) (e : Env) :
    (answersToZero cfg e).map Prod.fst = [joinZero, stateOfZero] :=
  List.map_fst_zip (Program.length_serve _ _ _ _).ge

/-- A reply that can be read, and is, by the second request. -/
theorem game_uninfluenced_readable :
    (RedisPool.withConnection (RedisConnection.get (CacheManager.sessionKey 0)) readableSession.net
      {}).1 = .ok (some (ascii "\x7b\x7d")) ∧
    SameAnswers (answersToZero ⟨true, true⟩ readableSession)
      (answersToZero alone readableSession) := by
  have hlength : ¬ RedisConnection.BadLength ((ascii "2\r\n\x7b\x7d\r\n").map some) := by
    intro hbad
    have hthrows := (RedisConnection.readBulkString_error_iff
      { arrivals := (ascii "2\r\n\x7b\x7d\r\n").map some }).mpr hbad
    revert hthrows
    decide +kernel
  have hreadable : ∀ c w, Call.Readable ⟨true, true⟩ c readableSession w := fun c w => by
    cases c with
    | redisGet key =>
      rintro - ⟨-, -, rest, harrivals, hbad⟩
      cases harrivals
      exact hlength hbad
    | _ => trivial
  obtain ⟨w, halone⟩ := served_answersToZero alone readableSession
  obtain ⟨v, hserved⟩ := servedWhere_answersToZero hreadable
  have hsame : (answersToZero ⟨true, true⟩ readableSession).map Prod.fst =
      (answersToZero alone readableSession).map Prod.fst :=
    (requests_answersToZero _ _).trans (requests_answersToZero _ _).symm
  exact ⟨by decide +kernel, (game_uninfluenced rfl hserved halone hsame).1⟩

/-- **A reply of Redis that turns an answer into an error.**  The length in the reply is no number,
the client throws, and a request that another server answers is answered with an error. -/
theorem exists_influenced : ∃ w v,
    Served (reply ⟨true, false⟩ .zero) (Call.exec .zero) .started
      (answersToZero ⟨true, false⟩ garbling) w ∧
    Served (reply alone .zero) (Call.exec .zero) .started (answersToZero alone garbling) v ∧
    ¬ SameAnswers (answersToZero ⟨true, false⟩ garbling) (answersToZero alone garbling) := by
  obtain ⟨w, hserved⟩ := served_answersToZero ⟨true, false⟩ garbling
  obtain ⟨v, halone⟩ := served_answersToZero alone garbling
  refine ⟨w, v, hserved, halone, fun hsame => ?_⟩
  have hdecode : Request.decode stateOfZero ≠ .getMetrics := by decide +kernel
  cases hsame with
  | cons _ hrest =>
    cases hrest with
    | cons hlast _ =>
      have htext := congrArg Json.text (hlast.2 hdecode)
      revert htext
      decide +kernel

end MultiPlayerGame
