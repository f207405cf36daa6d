import MultiPlayerGame.Server.RequestHandler

/-!
# What a request asks for

The handlers interleave reading the request, acting on the shared objects and building the response.
This file takes them apart.  `decode` reads a payload and makes all the checks that need no shared
object; what remains is a `Request`.  `Request.serve` carries it out.  `answer_eq` says that this is
what the request handler does.

A request that gets as far as the game state is a `Command`.  One step on the game state decides
about it (`Command.call`).  If that step refuses, its text is the answer and nothing else happens.
If it does not, the cache, the database and the gauge are written (`Command.effects`), one event is
recorded, and the response is already known (`Command.outcome`).

## Why the handlers are taken apart

The checks of a handler are the same for every order of the other requests, and so are the texts of
its responses.  Only one step of a command depends on the shared state in a way that decides about
anything.  With the three parts separate, a property of the checks is proved about `decode`, with no
state in sight; a property of the texts about `Command.outcome`; and a property of the game about
`Command.call`.  `answer_eq` is proved once, handler by handler, and nothing after it looks at a
handler again.

`ofAction` follows the order of the checks in the handlers, since the first one that fails provides
the text.  `GET_STATE` is no command because it may look at the state twice, and because the cache
lookup in between has a say in the answer.
-/

namespace MultiPlayerGame

open Bytes (ascii)
open Json (obj int)
open GameState (clamp mapMin mapMax)
open RequestHandler

/-- An action on the game that has passed the checks of its handler. -/
inductive Command where
  | join (playerId : Int32)
  | move (playerId x y : Int32)
  | attack (playerId targetId : Int32)
  | chat (playerId : Int32) (message : Bytes)
  | updateScore (playerId score : Int32)
  | leave (playerId : Int32)
  deriving DecidableEq, Repr

/-- What a payload asks for.  What has been refused has the text of the refusal, and what has not
has all that its handler reads. -/
inductive Request where
  | refused (message : Bytes)
  | command (c : Command)
  | getState (playerId : Option Int32)
  | getMetrics
  deriving DecidableEq, Repr

/-- A string that has been required is the one in the field. -/
theorem field_of_requireString {req : Json} {key : String} {s : Bytes}
    (h : requireString req key = .ok s) :
    (req.field? (ascii key)).bind getString = some s := by
  unfold requireString requireField at h
  split at h
  · cases h
  · rename_i v hv
    split at h
    · cases h
    · rename_i a ha
      cases h
      rw [hv]
      exact ha

namespace Request

/-- Go on with what a check has read. -/
def check {α : Type} (r : Except Bytes α) (next : α → Request) : Request :=
  match r with
  | .error err => .refused err
  | .ok a => next a

/-- The checks of the handler of an action. -/
def ofAction (req : Json) : Action → Request
  | .join => check (requireInt req "player_id") fun playerId => .command (.join playerId)
  | .move =>
    check (requireInt req "player_id") fun playerId =>
    check (requireInt req "x") fun x =>
    check (requireInt req "y") fun y => .command (.move playerId x y)
  | .attack =>
    check (requireInt req "player_id") fun playerId =>
    check (requireInt req "target_id") fun targetId => .command (.attack playerId targetId)
  | .chat =>
    check (requireInt req "player_id") fun playerId =>
    check (requireString req "message") fun message =>
    if message = [] then .refused (ascii "message cannot be empty")
    else if Json.toInt32 message.length > GameState.maxChatLen then
      .refused (ascii "message too long (max " ++ toString GameState.maxChatLen ++ ascii " chars)")
    else .command (.chat playerId message)
  | .getState => .getState ((req.field? (ascii "player_id")).bind getInt)
  | .updateScore =>
    check (requireInt req "player_id") fun playerId =>
    check (requireInt req "score") fun score =>
    if score < 0 then .refused (ascii "score cannot be negative")
    else .command (.updateScore playerId score)
  | .leave => check (requireInt req "player_id") fun playerId => .command (.leave playerId)
  | .getMetrics => .getMetrics

/-- The action of a request, if it is one that has a handler. -/
def action? (req : Json) : Option Action :=
  ((req.field? (ascii "action")).bind getString).bind Action.ofName?

/-- All the checks that are made on a payload alone. -/
def decode (rawJson : Bytes) : Request :=
  match Parser.parse rawJson with
  | none => .refused (ascii "invalid JSON")
  | some req =>
    match (req.field? (ascii "action")).bind getString with
    | none => .refused (ascii "missing action")
    | some action =>
      match Action.ofName? action with
      | none => .refused (ascii "unknown action: " ++ action)
      | some a => ofAction req a

end Request

namespace Command

/-- The player the event of the command is about. -/
def playerId : Command → Int32
  | join playerId | move playerId .. | attack playerId .. | chat playerId ..
  | updateScore playerId .. | leave playerId => playerId

def action : Command → Action
  | join _ => .join
  | move .. => .move
  | attack .. => .attack
  | chat .. => .chat
  | updateScore .. => .updateScore
  | leave _ => .leave

/-- The step on the game state that decides about the command. -/
@[reducible] def call : Command → Call
  | join playerId => .addPlayer playerId
  | move playerId x y => .movePlayer playerId (clamp x mapMin mapMax) (clamp y mapMin mapMax)
  | attack playerId targetId => .attackPlayer playerId targetId
  | chat playerId _ => .hasPlayer playerId
  | updateScore playerId score => .setScore playerId score
  | leave playerId => .removePlayer playerId

/-- What the answer of `call` leads to: the text of a refusal, or the data of the event and the
response. -/
def outcome : (c : Command) → c.call.Ans → Except Bytes (Bytes × Json)
  | join playerId, r => r.map fun _ => (ascii "\x7b\x7d", joinResponse playerId)
  | move playerId x y, r => r.map fun _ =>
    (moveData (clamp x mapMin mapMax) (clamp y mapMin mapMax),
      moveResponse playerId (clamp x mapMin mapMax) (clamp y mapMin mapMax))
  | attack playerId targetId, r => r.map fun result =>
    (attackData targetId result.damage result.targetEliminated,
      attackResponse playerId targetId result)
  | chat playerId message, present =>
    if present then .ok (chatData message, chatResponse playerId message)
    else .error (GameState.notInGame playerId)
  | updateScore playerId score, r => r.map fun _ =>
    (scoreData score, updateScoreResponse playerId score)
  | leave playerId, r => r.map fun finalScore =>
    (leaveData finalScore, leaveResponse playerId finalScore)

/-- What happens outside the game state when the command succeeds. -/
def effects (cfg : Config) : (c : Command) → c.call.Ans → Handler Unit
  | join playerId, _ => do
    updateActivePlayers
    when cfg.cacheEnabled (cacheSession playerId)
    when cfg.hasDb (storePlayer playerId 0 (ascii "JOIN") (ascii "\x7b\x7d"))
  | move playerId x y, _ =>
    when cfg.cacheEnabled (discard (CacheManager.setPlayerPosition playerId
      (clamp x mapMin mapMax) (clamp y mapMin mapMax)))
  | leave playerId, .ok finalScore => do
    updateActivePlayers
    when cfg.cacheEnabled (discard (CacheManager.deletePlayerSession playerId))
    when cfg.hasDb (storePlayer playerId finalScore (ascii "LEAVE") (leaveData finalScore))
  | _, _ => pure ()

/-- What follows the deciding step, by its outcome.  The text of a refusal becomes the response, and
the response of a success is known before its effects. -/
def finish (cfg : Config) (c : Command) (x : c.call.Ans) :
    Except Bytes (Bytes × Json) → Handler Json
  | .error err => return errorResponse err
  | .ok (data, response) => do
    c.effects cfg x
    recordEvent c.playerId (ascii c.action.name) data
    return response

/-- Carrying out a command. -/
def handler (cfg : Config) (c : Command) : Handler Json := do
  let x ← invoke c.call
  c.finish cfg x (c.outcome x)

end Command

namespace Request

/-! ## The action of a request -/

/-- The action of a request that has not been refused. -/
def action : Request → Option Action
  | refused _ => none
  | command c => some c.action
  | getState _ => some .getState
  | getMetrics => some .getMetrics

theorem action_check {α : Type} {r : Except Bytes α} {next : α → Request} {a : Action}
    (h : ∀ x, (next x).action = none ∨ (next x).action = some a) :
    (check r next).action = none ∨ (check r next).action = some a := by
  cases r with
  | error err => exact Or.inl rfl
  | ok x => exact h x

/-- A handler makes a request of its own action, or refuses. -/
theorem action_ofAction (req : Json) (a : Action) :
    (ofAction req a).action = none ∨ (ofAction req a).action = some a := by
  cases a with
  | join => exact action_check fun _ => Or.inr rfl
  | move => exact action_check fun _ => action_check fun _ => action_check fun _ => Or.inr rfl
  | attack => exact action_check fun _ => action_check fun _ => Or.inr rfl
  | chat =>
    refine action_check fun _ => action_check fun message => ?_
    split
    · exact Or.inl rfl
    split
    · exact Or.inl rfl
    · exact Or.inr rfl
  | getState => exact Or.inr rfl
  | updateScore =>
    refine action_check fun _ => action_check fun score => ?_
    split
    · exact Or.inl rfl
    · exact Or.inr rfl
  | leave => exact action_check fun _ => Or.inr rfl
  | getMetrics => exact Or.inr rfl

/-- A request that is not refused was made by the checks of its action. -/
theorem decode_action {rawJson : Bytes} {a : Action} (h : (decode rawJson).action = some a) :
    ∃ req, Parser.parse rawJson = some req ∧ action? req = some a ∧
      decode rawJson = ofAction req a := by
  unfold decode at h ⊢
  cases hparse : Parser.parse rawJson with
  | none =>
    rw [hparse] at h
    cases h
  | some req =>
    rw [hparse] at h
    simp only at h ⊢
    cases hstring : (req.field? (ascii "action")).bind getString with
    | none =>
      rw [hstring] at h
      cases h
    | some name =>
      rw [hstring] at h
      simp only at h ⊢
      cases hname : Action.ofName? name with
      | none =>
        rw [hname] at h
        cases h
      | some a' =>
        rw [hname] at h
        simp only at h ⊢
        have ha : a' = a := by
          rcases action_ofAction req a' with hno | hsome
          · rw [hno] at h
            cases h
          · rw [hsome] at h
            exact Option.some.inj h
        subst ha
        exact ⟨req, rfl, by rw [action?, hstring]; exact hname, rfl⟩

theorem decode_of_action {rawJson : Bytes} {req : Json} {a : Action}
    (hparse : Parser.parse rawJson = some req) (ha : action? req = some a) :
    decode rawJson = ofAction req a := by
  obtain ⟨action, haction, hname⟩ := Option.bind_eq_some_iff.mp ha
  simp only [decode, hparse, haction, hname]

variable (cfg : Config) (fp : Doubles)

/-- The end of `handleGetState`, by what the cache lookup returned. -/
def afterLookup : Except Unit (Option Json) → Handler (Except Unit Json)
  | .error _ => return .error ()
  | .ok _ => stateResponse

/-- `handleGetState` for a player, by whether it is in the game. -/
def stateHandler (playerId : Int32) : Bool → Handler (Except Unit Json)
  | false => return .ok (errorResponse (GameState.notInGame playerId))
  | true =>
    if cfg.cacheEnabled then do
      let session ← CacheManager.getPlayerSession playerId
      afterLookup session
    else stateResponse

/-- Carrying out a request.  It is what the handlers do when the checks on the payload are through.
-/
def serve : Request → Handler Json
  | refused message => return errorResponse message
  | command c => c.handler cfg
  | getState none => do
    let r ← stateResponse
    orInternalError r
  | getState (some playerId) => do
    let present ← invoke (.hasPlayer playerId)
    let r ← stateHandler cfg playerId present
    orInternalError r
  | getMetrics => handleGetMetrics fp

/-- The counting of requests around serving one.  The outcome is counted by the status in the
response. -/
def counted (p : Handler Json) : Handler Json := do
  MetricsRegistry.increment .requestsTotal
  let response ← p
  MetricsRegistry.increment (if isOk response then .successfulRequests else .failedRequests)
  return response

/-! ## The request handler decodes and serves -/

@[simp] theorem isOk_errorResponse (message : Bytes) : isOk (errorResponse message) = false := by
  simp +decide [isOk, errorResponse, Json.stringValue]

theorem refuse_eq (message : String) :
    refuse message = counted (pure (errorResponse (ascii message))) := by
  simp [refuse, counted]

/-- A handler that cannot throw, behind the `try`. -/
theorem try_ok (p : Handler Json) :
    (do
      let r ← Except.ok (ε := Unit) <$> p
      orInternalError r) = p := by
  simp [map_eq_pure_bind, orInternalError, Program.bind_ret]

/-- A check in a handler is the same check in `ofAction`. -/
theorem orError_eq {α : Type} (r : Except Bytes α) {next : α → Handler Json} {next' : α → Request}
    (h : ∀ a, next a = (next' a).serve cfg fp) :
    orError r next = (check r next').serve cfg fp := by
  cases r with
  | error err => rfl
  | ok a => exact h a

/-- Two programs that begin with the same step. -/
theorem invoke_bind_congr {α : Type} {c : Call} {f g : c.Ans → Handler α} (h : ∀ x, f x = g x) :
    invoke c >>= f = invoke c >>= g :=
  congrArg _ (funext h)

theorem handleJoin_eq (req : Json) :
    handleJoin cfg req = (ofAction req .join).serve cfg fp := by
  refine orError_eq cfg fp _ fun playerId => invoke_bind_congr fun x => ?_
  cases x with
  | error err => rfl
  | ok _ =>
    simp [orError, Command.finish, Command.outcome, Command.effects, Command.playerId,
      Command.action, Action.name, Except.map]

theorem handleMove_eq (req : Json) :
    handleMove cfg req = (ofAction req .move).serve cfg fp := by
  refine orError_eq cfg fp _ fun playerId => orError_eq cfg fp _ fun x =>
    orError_eq cfg fp _ fun y => invoke_bind_congr fun x => ?_
  cases x with
  | error err => rfl
  | ok _ => rfl

theorem handleAttack_eq (req : Json) :
    handleAttack req = (ofAction req .attack).serve cfg fp := by
  refine orError_eq cfg fp _ fun playerId => orError_eq cfg fp _ fun targetId =>
    invoke_bind_congr fun x => ?_
  cases x with
  | error err => rfl
  | ok _ => rfl

theorem handleChat_eq (req : Json) :
    handleChat req = (ofAction req .chat).serve cfg fp := by
  refine orError_eq cfg fp _ fun playerId => orError_eq cfg fp _ fun message => ?_
  by_cases hempty : message = []
  · rw [if_pos hempty, if_pos hempty]
    rfl
  rw [if_neg hempty, if_neg hempty]
  by_cases hlong : Json.toInt32 message.length > GameState.maxChatLen
  · rw [if_pos hlong, if_pos hlong]
    rfl
  rw [if_neg hlong, if_neg hlong]
  refine invoke_bind_congr fun present => ?_
  cases present with
  | false => rfl
  | true => rfl

theorem handleUpdateScore_eq (req : Json) :
    handleUpdateScore req = (ofAction req .updateScore).serve cfg fp := by
  refine orError_eq cfg fp _ fun playerId => orError_eq cfg fp _ fun score => ?_
  by_cases hneg : score < 0
  · rw [if_pos hneg, if_pos hneg]
    rfl
  rw [if_neg hneg, if_neg hneg]
  refine invoke_bind_congr fun x => ?_
  cases x with
  | error err => rfl
  | ok _ => rfl

theorem handleLeave_eq (req : Json) :
    handleLeave cfg req = (ofAction req .leave).serve cfg fp := by
  refine orError_eq cfg fp _ fun playerId => invoke_bind_congr fun x => ?_
  cases x with
  | error err => rfl
  | ok finalScore =>
    simp [orError, Command.finish, Command.outcome, Command.effects, Command.playerId,
      Command.action, Action.name, Except.map]

theorem handleGetState_eq (req : Json) :
    (do
      let r ← handleGetState cfg req
      orInternalError r) = (ofAction req .getState).serve cfg fp := by
  unfold handleGetState ofAction
  cases (req.field? (ascii "player_id")).bind getInt with
  | none => rfl
  | some playerId =>
    refine invoke_bind_congr fun present => ?_
    cases present with
    | false => rfl
    | true =>
      simp only [stateHandler]
      cases cfg.cacheEnabled with
      | false => rfl
      | true => rfl

/-- What the handlers do once the checks on the payload are through. -/
theorem dispatch_eq (req : Json) (a : Action) :
    (do
      let r ← dispatch cfg fp req a
      orInternalError r) = (ofAction req a).serve cfg fp := by
  cases a with
  | join => exact (try_ok _).trans (handleJoin_eq cfg fp req)
  | move => exact (try_ok _).trans (handleMove_eq cfg fp req)
  | attack => exact (try_ok _).trans (handleAttack_eq cfg fp req)
  | chat => exact (try_ok _).trans (handleChat_eq cfg fp req)
  | getState => exact handleGetState_eq cfg fp req
  | updateScore => exact (try_ok _).trans (handleUpdateScore_eq cfg fp req)
  | leave => exact (try_ok _).trans (handleLeave_eq cfg fp req)
  | getMetrics => exact try_ok _

/-- **The request handler decodes the payload, serves the request and counts it.**  This is where
the handlers are unfolded, each of them once, and nothing later looks at them. -/
theorem answer_eq (rawJson : Bytes) :
    answer cfg fp rawJson = counted ((decode rawJson).serve cfg fp) := by
  unfold answer decode
  cases Parser.parse rawJson with
  | none => exact refuse_eq "invalid JSON"
  | some req =>
    simp only
    cases (req.field? (ascii "action")).bind getString with
    | none => exact refuse_eq "missing action"
    | some action =>
      have hrespond : respond cfg fp req action =
          (match Action.ofName? action with
            | none => refused (ascii "unknown action: " ++ action)
            | some a => ofAction req a).serve cfg fp := by
        unfold respond
        cases Action.ofName? action with
        | none => rfl
        | some a => exact dispatch_eq cfg fp req a
      simp only [hrespond, counted]

end Request
end MultiPlayerGame
