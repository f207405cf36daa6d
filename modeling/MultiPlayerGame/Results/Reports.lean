import MultiPlayerGame.Library.Arrears
import MultiPlayerGame.Server.Copies
import MultiPlayerGame.Results.Linearizability

/-!
# What a handler reports after its step on the game

A handler decides about its command in one step on the game state, with the mutex held.  What it
does afterwards it does without: it writes the session and the position to Redis, and it records an
event.  These are its reports.  `dispatch_acting` says that every handler is of this kind: at most
one deciding step, and after it exactly the reports that the answer calls for, in a fixed order.

`dispatch` is taken as a whole, with any action and any request object, so the handlers of all
actions run beside each other.

## Why in one place

Two results are about what the handlers do after their step on the game: the cache agrees with the
game if the reports to Redis arrive in order, and the log tells a possible story if the events do.
Which reports there are, and that every handler makes exactly those that its answer calls for, is
the same question in both.  `accounts` answers it for all kinds of reports at once, and each of the
results looks at the kind that it is about.

`JOIN` and `LEAVE` also write to the database and set the gauge between their reports.  These steps
are `Idle` here: they neither decide anything nor report to one of the two.
-/

namespace MultiPlayerGame
namespace Reports

open Bytes (ascii)
open RequestHandler
open GameState (clamp mapMin mapMax)
open Interleaving (Accounts)
open Interleaving.Accounts (Owing Acting)
open Linearizability (Deciding deciding_call)

/-- Something that is to be reported: that there is, or is not, a session for a player; where a
player is; or an event. -/
inductive Debt where
  | session (playerId : Int32) (present : Bool)
  | position (playerId x y : Int32)
  | event (playerId : Int32) (eventType data : Bytes)
  deriving DecidableEq

/-- What a command that succeeds writes to Redis. -/
def cached : Command → List Debt
  | .join playerId => [.session playerId true, .position playerId 500 500]
  | .move playerId x y => [.position playerId (clamp x mapMin mapMax) (clamp y mapMin mapMax)]
  | .leave playerId => [.session playerId false]
  | _ => []

variable (cfg : Config) (fp : Doubles)

/-- What a command that succeeds reports.  What goes to Redis comes first, and the event last. -/
def reported (c : Command) (data : Bytes) : List Debt :=
  (if cfg.cacheEnabled then cached c else []) ++
    [.event c.playerId (ascii c.action.name) data]

/-- What is to be reported after a deciding step with this answer.  `P` holds of the commands that
there are.  `GET_STATE` asks whether a player is in the game and reports nothing. -/
inductive Debts (P : Command → Prop) : (call : Call) → call.Ans → List Debt → Prop where
  | done {c : Command} {x : c.call.Ans} {data : Bytes} {response : Json} (holds : P c)
      (accepted : c.outcome x = .ok (data, response)) : Debts P c.call x (reported cfg c data)
  | refused {c : Command} {x : c.call.Ans} {err : Bytes} (holds : P c)
      (rejected : c.outcome x = .error err) : Debts P c.call x []
  | looked (playerId : Int32) (present : Bool) : Debts P (.hasPlayer playerId) present []

/-- The steps that make reports.  A command that Redis has not executed makes its report all the
same, for it will not be sent again. -/
inductive Tells : Call → Debt → Prop where
  | joined (playerId : Int32) (session : Bytes) (expireSeconds : Nat) :
      Tells (.redis (.set (CacheManager.sessionKey playerId) session expireSeconds))
        (.session playerId true)
  | left (playerId : Int32) :
      Tells (.redis (.del (CacheManager.sessionKey playerId))) (.session playerId false)
  | position (playerId x y : Int32) (expireSeconds : Nat) :
      Tells (.redis (.set (CacheManager.positionKey playerId) (MultiPlayerGame.position x y)
        expireSeconds)) (.position playerId x y)
  | event (ev : GameEvent) : Tells (.pushEvent ev) (.event ev.playerId ev.eventType ev.data)

/-- Steps that neither decide about a command nor report. -/
def Idle : Call → Prop
  | .addPlayer _ | .removePlayer _ | .movePlayer .. | .attackPlayer .. | .setScore ..
  | .hasPlayer _ | .redis _ | .pushEvent _ => False
  | _ => True

/-- The accounts of the handlers. -/
def accounts (P : Command → Prop) : Accounts Call Call.Ans Debt where
  quiet := Idle
  acts := Deciding
  debts := Debts cfg P
  reports := Tells
  not_acts_of_quiet {c} h h' := by cases c <;> first | exact h | exact h'
  not_reports_of_quiet h h' := by cases h' <;> exact h
  not_reports_of_acts h h' := by cases h' <;> exact h

variable {P : Command → Prop}

/-! ## The handlers keep these accounts -/

theorem idle_of_onDatabase {c : Call} (hc : c.OnDatabase) : Idle c := by
  cases c with
  | dbOpen | dbExecute | clock | fetchAdd | addDbLatency => trivial
  | _ => exact hc.elim

theorem storePlayer_idle (playerId score : Int32) (eventType eventData : Bytes) :
    (storePlayer playerId score eventType eventData).Calls Idle :=
  storePlayer_calls (fun _ hc _ => idle_of_onDatabase hc) playerId score eventType eventData

theorem updateActivePlayers_idle : updateActivePlayers.Calls Idle :=
  ⟨trivial, fun _ => ⟨trivial, fun _ => trivial⟩⟩

theorem when_owing {A : Accounts Call Call.Ans Debt} {ds : List Debt} {p : Handler Unit}
    (hp : A.Owing ds p) (b : Bool) : A.Owing (if b then ds else []) (when b p) := by
  cases b with
  | false => exact .ret ()
  | true => exact hp

theorem cacheSession_owing (playerId : Int32) :
    (accounts cfg P).Owing (cached (.join playerId)) (cacheSession playerId) :=
  .skip trivial fun _ => .report (Tells.joined playerId _ 300) fun _ =>
    .report (Tells.position playerId 500 500 60) fun _ => .ret ()

/-- **What a command does outside the game state, next to its reports to Redis, is idle.** -/
theorem effects_owing {c : Command} {x : c.call.Ans} {out : Bytes × Json}
    (hx : c.outcome x = .ok out) :
    (accounts cfg P).Owing (if cfg.cacheEnabled then cached c else []) (c.effects cfg x) := by
  cases c with
  | join playerId =>
    exact .quiet_bind updateActivePlayers_idle fun _ =>
      (when_owing (cacheSession_owing cfg playerId) _).bind_quiet fun _ =>
        when_calls (storePlayer_idle _ _ _ _)
  | move playerId x y =>
    exact when_owing (.report (Tells.position playerId _ _ 60) fun _ => .ret ()) _
  | leave playerId =>
    cases x with
    | error err => cases hx
    | ok finalScore =>
      exact .quiet_bind updateActivePlayers_idle fun _ =>
        (when_owing (.report (Tells.left playerId) fun _ => .ret ()) _).bind_quiet fun _ =>
          when_calls (storePlayer_idle _ _ _ _)
  | attack | chat | updateScore =>
    simp only [cached, ite_self]
    exact .ret ()

theorem recordEvent_owing (playerId : Int32) (eventType data : Bytes) :
    (accounts cfg P).Owing [.event playerId eventType data] (recordEvent playerId eventType data) :=
  .skip trivial fun _ => .skip trivial fun _ => .report (Tells.event _) fun _ => .ret ()

/-- What follows the deciding step makes the reports that its answer calls for. -/
theorem finish_owing {c : Command} (hc : P c) {x : c.call.Ans} {r : Except Bytes (Bytes × Json)}
    (hx : c.outcome x = r) :
    ∃ ds, Debts cfg P c.call x ds ∧ (accounts cfg P).Owing ds (c.finish cfg x r) := by
  cases r with
  | error err => exact ⟨[], .refused hc hx, .ret _⟩
  | ok out =>
    obtain ⟨data, response⟩ := out
    have hrecord := recordEvent_owing (P := P) cfg c.playerId (ascii c.action.name) data
    have hreturn : (accounts cfg P).Owing [] (pure response : Handler Json) := .ret response
    exact ⟨reported cfg c data, .done hc hx,
      (effects_owing cfg hx).bind fun _ => hrecord.bind fun _ => hreturn⟩

theorem handler_acting {c : Command} (hc : P c) : (accounts cfg P).Acting (c.handler cfg) :=
  .act (deciding_call c) fun _ => finish_owing cfg hc rfl

theorem toJson_idle : (MetricsRegistry.toJson fp).Calls Idle :=
  toJson_calls (fun _ => trivial) trivial trivial fp

theorem handleGetState_acting (req : Json) :
    (accounts cfg P).Acting (handleGetState cfg req) := by
  unfold handleGetState
  have hstate : stateResponse.Calls Idle := stateResponse_calls trivial
  cases (req.field? (ascii "player_id")).bind getInt with
  | none => exact .of_quiet hstate
  | some playerId =>
    refine .act trivial fun present =>
      ⟨[], Debts.looked playerId present, .of_quiet ?_⟩
    have hrest := stateHandler_calls (P := Idle) trivial trivial trivial (fun _ => trivial) cfg
      playerId present
    obtain ⟨cacheEnabled, hasDb⟩ := cfg
    cases present with
    | false => trivial
    | true =>
      cases cacheEnabled with
      | false => exact hrest
      | true => exact hrest

theorem serve_acting {q : Request} (hstate : ∀ p, q ≠ .getState p)
    (hq : ∀ c, q = .command c → P c) : (accounts cfg P).Acting (q.serve cfg fp) := by
  cases q with
  | refused message => exact .ret _
  | command c => exact handler_acting cfg (hq c rfl)
  | getState playerId => exact absurd rfl (hstate playerId)
  | getMetrics => exact .of_quiet ((toJson_idle fp).bind fun _ => trivial)

/-- **Every handler acts at most once and then makes the reports that this calls for.**  The early
returns come before the step on the game or right behind its refusal, and owe nothing. -/
theorem dispatch_acting {req : Json} {a : Action}
    (hP : ∀ c, Request.ofAction req a = .command c → P c) :
    (accounts cfg P).Acting (dispatch cfg fp req a) := by
  by_cases ha : a = .getState
  · subst ha
    exact handleGetState_acting cfg req
  have hdispatch : dispatch cfg fp req a = .ok <$> (Request.ofAction req a).serve cfg fp := by
    cases a with
    | join => exact congrArg (Except.ok <$> ·) (Request.handleJoin_eq cfg fp req)
    | move => exact congrArg (Except.ok <$> ·) (Request.handleMove_eq cfg fp req)
    | attack => exact congrArg (Except.ok <$> ·) (Request.handleAttack_eq cfg fp req)
    | chat => exact congrArg (Except.ok <$> ·) (Request.handleChat_eq cfg fp req)
    | getState => exact absurd rfl ha
    | updateScore => exact congrArg (Except.ok <$> ·) (Request.handleUpdateScore_eq cfg fp req)
    | leave => exact congrArg (Except.ok <$> ·) (Request.handleLeave_eq cfg fp req)
    | getMetrics => rfl
  have hstate : ∀ p, Request.ofAction req a ≠ .getState p := fun p hp => by
    rcases Request.action_ofAction req a with hno | hown
    · rw [hp] at hno
      cases hno
    · rw [hp] at hown
      exact ha (Option.some.inj hown).symm
  rw [hdispatch, map_eq_pure_bind]
  exact (serve_acting cfg fp hstate hP).bind_quiet fun _ => trivial

/-! ## What a deciding step does -/

/-- **A deciding step either refuses and changes nothing, or carries out its command.**  This is
what a report may rely on: the world right after the step in which the command was carried out. -/
theorem deciding_step {c : Call} {e : Env} {w : World} {ds : List Debt}
    (hdebts : Debts cfg P c (c.exec fp e w).1 ds) :
    (ds = [] ∧ (c.exec fp e w).2 = w) ∨
      ∃ (command : Command) (data : Bytes) (response : Json) (g : GameState), P command ∧
        ds = reported cfg command data ∧
        command.apply e.now w.game = .ok ((data, response), g) ∧
        (c.exec fp e w).2 = { w with game := g } := by
  generalize hx : (c.exec fp e w).1 = x at hdebts
  cases hdebts with
  | @done command x data response holds accepted =>
    have hexec := Command.exec_call fp command e w
    rw [hx, accepted] at hexec
    split at hexec
    · cases hexec.1
    · rename_i out g happly
      obtain ⟨hout, hworld⟩ := hexec
      cases hout
      exact Or.inr ⟨command, data, response, g, holds, rfl, happly, hworld⟩
  | @refused command x err holds rejected =>
    have hexec := Command.exec_call fp command e w
    rw [hx, rejected] at hexec
    split at hexec
    · exact Or.inl ⟨rfl, hexec.2⟩
    · cases hexec.1
  | looked playerId present => exact Or.inl ⟨rfl, rfl⟩

end Reports
end MultiPlayerGame
