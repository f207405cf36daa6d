import MultiPlayerGame.Server.Serving

/-!
# Deeds: what clients have done, read off requests and responses

A client that keeps its requests and the responses to them knows what has been done: a request that
was answered `ok` was carried out, and whether an attack killed is in its response.  `deed?` reads
this off, without looking at the server.  `Deed.Did` says what a deed does to the arena.

`responds_deed` connects the two: what a request does to the arena is what its deed does, and
nothing if it has none.  The histories of the results about whole runs are lists of deeds, and their
inductions use nothing else about the server.

## Why the client's view

What a run has done could be read off the event log, or off the calls on the shared objects.  The
log forgets, and nobody outside sees the calls.  Requests and responses are what clients have, and a
statement in terms of them is one that a client could check.  For that a response has to say enough:
that it is `ok`, and for an attack whether the target was eliminated.

`Deed.Did` is a relation and not a function, as a deed says who must have been there.  An induction
along a run has it at every step, with the old and the new arena, and no other knowledge of the
server.
-/

namespace MultiPlayerGame

open Bytes (ascii)
open RequestHandler
open GameState (clamp mapMin mapMax)

/-- Something that was done in the game.  It is one of the six actions, with what of the request and
the response is needed to tell what became of the players. -/
inductive Deed where
  | joined (playerId : Int32)
  | moved (playerId x y : Int32)
  | attacked (playerId targetId : Int32) (eliminated : Bool)
  | scored (playerId score : Int32)
  | left (playerId : Int32)
  deriving DecidableEq, Repr

/-- Does a response say that the target was eliminated? -/
def eliminated (response : Json) : Bool :=
  match response.field? (ascii "eliminated") with
  | some (.boolean b) => b
  | _ => false

/-- The deed of a command that was answered with `ok`. -/
def Command.deed (response : Json) : Command → Option Deed
  | .join playerId => some (.joined playerId)
  | .move playerId x y => some (.moved playerId x y)
  | .attack playerId targetId => some (.attacked playerId targetId (eliminated response))
  | .chat .. => none
  | .updateScore playerId score => some (.scored playerId score)
  | .leave playerId => some (.left playerId)

/-- The deed of a request that was answered. -/
def Request.deed (response : Json) : Request → Option Deed
  | .command c => if isOk response then c.deed response else none
  | _ => none

/-- The deed of a payload with its response.  There is none if the response is not `ok`, or if the
request only asks. -/
def deed? (e : Bytes × Json) : Option Deed := (Request.decode e.1).deed e.2

/-- The deeds of a history. -/
def deeds (history : List (Bytes × Json)) : List Deed := history.filterMap deed?

theorem deeds_concat_of_some {history : List (Bytes × Json)} {e : Bytes × Json} {d : Deed}
    (h : deed? e = some d) : deeds (history ++ [e]) = deeds history ++ [d] := by
  simp [deeds, h]

theorem deeds_concat_of_none {history : List (Bytes × Json)} {e : Bytes × Json}
    (h : deed? e = none) : deeds (history ++ [e]) = deeds history := by
  simp [deeds, h]

/-! ### Only scores that are not negative are set -/

theorem Request.check_eq_command {α : Type} {r : Except Bytes α} {next : α → Request} {c : Command}
    (h : check r next = .command c) : ∃ a, r = .ok a ∧ next a = .command c := by
  cases r with
  | error err => cases h
  | ok a => exact ⟨a, rfl, h⟩

theorem Request.nonneg_of_decode {rawJson : Bytes} {playerId score : Int32}
    (h : decode rawJson = .command (.updateScore playerId score)) : ¬ score < 0 := by
  obtain ⟨req, -, -, hdecode⟩ := decode_action (a := .updateScore) (by rw [h]; rfl)
  rw [hdecode] at h
  obtain ⟨p, -, h⟩ := check_eq_command h
  obtain ⟨n, -, h⟩ := check_eq_command h
  split at h
  · cases h
  · cases h
    assumption

/-- What a deed of a request comes from. -/
theorem deed?_eq_some {e : Bytes × Json} {d : Deed} (h : deed? e = some d) :
    ∃ c, Request.decode e.1 = .command c ∧ RequestHandler.isOk e.2 = true ∧
      c.deed e.2 = some d := by
  unfold deed? Request.deed at h
  split at h
  · rename_i c hc
    split at h
    · exact ⟨c, hc, ‹_›, h⟩
    · cases h
  · cases h

theorem nonneg_of_deed? {e : Bytes × Json} {playerId score : Int32}
    (h : deed? e = some (.scored playerId score)) : 0 ≤ score.toInt := by
  obtain ⟨c, hdecode, -, hdeed⟩ := deed?_eq_some h
  cases c with
  | updateScore p n =>
    cases hdeed
    have hn := Request.nonneg_of_decode hdecode
    rw [Int32.lt_iff_toInt_lt] at hn
    have hzero : (0 : Int32).toInt = 0 := rfl
    omega
  | _ => cases hdeed

/-! ## What a deed does -/

/-- **What a deed does to the arena**: who must have been there, and who is there afterwards. -/
inductive Deed.Did (a : Arena) : Deed → Arena → Prop where
  | joined (playerId : Int32) (status : MatchStatus) (absent : a.player playerId = none) :
      Did a (.joined playerId)
        ⟨Function.update a.player playerId (some .initial), status, a.totalKills⟩
  | moved (playerId x y : Int32) (s : Standing) (present : a.player playerId = some s) :
      Did a (.moved playerId x y)
        ⟨Function.update a.player playerId
          (some { s with x := clamp x mapMin mapMax, y := clamp y mapMin mapMax }),
          a.status, a.totalKills⟩
  | attacked (playerId targetId : Int32) (attacker target : Standing) (ne : playerId ≠ targetId)
      (present : a.player playerId = some attacker)
      (targetPresent : a.player targetId = some target) :
      Did a (.attacked playerId targetId (Arena.Lethal target))
        ⟨Function.update (Function.update a.player playerId
            (some (Arena.rewarded attacker target))) targetId (Arena.struck target),
          a.status, a.totalKills + if Arena.Lethal target then 1 else 0⟩
  | scored (playerId score : Int32) (s : Standing) (present : a.player playerId = some s) :
      Did a (.scored playerId score)
        ⟨Function.update a.player playerId (some { s with score }), a.status, a.totalKills⟩
  | left (playerId : Int32) (status : MatchStatus) (s : Standing)
      (present : a.player playerId = some s) :
      Did a (.left playerId) ⟨Function.update a.player playerId none, status, a.totalKills⟩

theorem eliminated_attackResponse (playerId targetId : Int32) (result : AttackResult) :
    eliminated (attackResponse playerId targetId result) = result.targetEliminated := by
  unfold attackResponse
  cases h : result.targetEliminated with
  | true => simp +decide [eliminated, Json.field?_set_obj]
  | false => simp +decide [eliminated]

/-- A command that the rules of the arena allow does its deed. -/
theorem Command.did_of_rule {c : Command} {a a' : Arena} {out : Bytes × Json}
    (h : c.rule a = .ok (out, a')) :
    match c.deed out.2 with
    | some d => d.Did a a'
    | none => a' = a := by
  cases carriedOut_of_rule h with
  | join playerId absent => exact Deed.Did.joined playerId _ absent
  | move playerId x y s present => exact Deed.Did.moved playerId x y s present
  | attack playerId targetId attacker target ne present targetPresent =>
    simp only [deed, eliminated_attackResponse]
    exact Deed.Did.attacked playerId targetId attacker target ne present targetPresent
  | chat playerId message _ => rfl
  | updateScore playerId score s present => exact Deed.Did.scored playerId score s present
  | leave playerId s present =>
    change Deed.Did a (.left playerId) (Arena.finishIfEmpty _)
    unfold Arena.finishIfEmpty
    split
    · exact Deed.Did.left playerId _ s present
    · exact Deed.Did.left playerId _ s present

theorem GameState.arena_record (playerId : Int32) (eventType data : Bytes) (timestamp : Int)
    (g : GameState) : (g.record playerId eventType data timestamp).arena = g.arena := rfl

/-- **What a request does to the arena is what its deed does.**  The response tells which deed it
was, and a request without one has left the arena alone. -/
theorem responds_deed {fp : Doubles} {unreadable : Prop} {q : Request} {g g' : GameState} {r : Json}
    (h : Responds fp unreadable q g r g') :
    match q.deed r with
    | some d => d.Did g.arena g'.arena
    | none => g'.arena = g.arena := by
  cases h with
  | done c now _ g₁ data r timestamp happly =>
    have hrule := c.arena_apply now g
    rw [happly] at hrule
    have hdid := Command.did_of_rule hrule.symm
    rw [Request.deed, if_pos (Command.isOk_of_apply happly)]
    rw [GameState.arena_record]
    exact hdid
  | rejected c now _ err happly => rw [Request.deed, Request.isOk_errorResponse]; rfl
  | _ => rfl

/-- The same for a run of `RequestHandler::handle`. -/
theorem reply_deed {cfg : Config} {fp : Doubles} {w w' : World} {rawJson : Bytes} {r : Json}
    (h : Program.Runs (Call.exec fp) (reply cfg fp rawJson) w r w') :
    match deed? (rawJson, r) with
    | some d => d.Did w.game.arena w'.game.arena
    | none => w'.game.arena = w.game.arena := by
  have h' : Program.Runs (Call.execVia fp id) (reply cfg fp rawJson) w r w' := h
  exact responds_deed (reply_responds h').1

/-- A command that the rules allow is carried out: the answer and the arena are those of the
rules. -/
theorem responds_of_rule {fp : Doubles} {unreadable : Prop} {c : Command} {g g' : GameState}
    {r : Json} {out : Bytes × Json} {a : Arena} (hrule : c.rule g.arena = .ok (out, a))
    (h : Responds fp unreadable (.command c) g r g') :
    isOk r = true ∧ r = out.2 ∧ g'.arena = a := by
  cases h with
  | rejected c now _ err happly =>
    have hrule' := c.arena_apply now g
    rw [happly, hrule] at hrule'
    cases hrule'
  | done c now _ g₁ data r timestamp happly =>
    have hrule' := c.arena_apply now g
    rw [happly, hrule] at hrule'
    cases hrule'
    exact ⟨Command.isOk_of_apply happly, rfl, rfl⟩

/-- A command that the rules do not allow is refused with the text of the rules. -/
theorem responds_of_refusal {fp : Doubles} {unreadable : Prop} {c : Command} {g g' : GameState}
    {r : Json} {err : Bytes} (hrule : c.rule g.arena = .error err)
    (h : Responds fp unreadable (.command c) g r g') : r = errorResponse err ∧ g' = g := by
  cases h with
  | rejected c now _ err' happly =>
    have hrule' := c.arena_apply now g
    rw [happly, hrule] at hrule'
    cases hrule'
    exact ⟨rfl, rfl⟩
  | done c now _ g₁ data r timestamp happly =>
    have hrule' := c.arena_apply now g
    rw [happly, hrule] at hrule'
    cases hrule'

theorem reply_of_rule {cfg : Config} {fp : Doubles} {w w' : World} {rawJson : Bytes} {r : Json}
    {c : Command} {out : Bytes × Json} {a : Arena}
    (hdecode : Request.decode rawJson = .command c) (hrule : c.rule w.game.arena = .ok (out, a))
    (h : Program.Runs (Call.exec fp) (reply cfg fp rawJson) w r w') :
    deed? (rawJson, r) = c.deed out.2 ∧ w'.game.arena = a := by
  have h' : Program.Runs (Call.execVia fp id) (reply cfg fp rawJson) w r w' := h
  have hresponds := (reply_responds h').1
  rw [hdecode] at hresponds
  obtain ⟨hok, rfl, harena⟩ := responds_of_rule hrule hresponds
  rw [deed?, hdecode, Request.deed, if_pos hok]
  exact ⟨rfl, harena⟩

/-- A server that has just been started, whatever Redis and MySQL hold. -/
def World.Fresh (w : World) : Prop := ∃ matchStart, w.game = { matchStart }

theorem World.Fresh.player {w : World} (hw : w.Fresh) (p : Int32) :
    w.game.arena.player p = none := by
  obtain ⟨t, ht⟩ := hw
  rw [ht]
  rfl

/-- A server started at time 0, with nothing in Redis and MySQL. -/
def World.started : World := { game := { matchStart := 0 } }

theorem World.started_fresh : World.started.Fresh := ⟨0, rfl⟩

/-- All durations printed as `0.0`. -/
def Doubles.zero : Doubles where
  seconds _ := ascii "0.0"
  averageMs _ _ := ascii "0.0"
  sumSeconds _ := ascii "0.000000"
  length_averageMs_le _ _ := by decide

/-- A request to join as player 0. -/
def joinZero : Bytes := ascii "\x7b\"action\":\"JOIN\",\"player_id\":0\x7d"

/-- The shortest run in which something is done. -/
theorem served_joinZero : ∃ r w,
    Program.Served (reply ⟨false, false⟩ .zero) (Call.exec .zero) .started [(joinZero, r)] w ∧
    isOk r = true ∧ deeds [(joinZero, r)] = [.joined 0] ∧
    w.game.arena.player = Function.update (fun _ => none) 0 (some .initial) := by
  obtain ⟨r, w, hlast⟩ :=
    Program.exists_runs (Call.exec .zero) (reply ⟨false, false⟩ .zero joinZero) .started
  have hrule : ∃ out a, (Command.join 0).rule World.started.game.arena = .ok (out, a) ∧
      a.player = Function.update (fun _ => none) 0 (some .initial) := ⟨_, _, rfl, rfl⟩
  obtain ⟨out, a, hrule, ha⟩ := hrule
  obtain ⟨hdeed, rfl⟩ := reply_of_rule rfl hrule hlast
  have hdeeds : deeds ([] ++ [(joinZero, r)]) = deeds [] ++ [.joined 0] :=
    deeds_concat_of_some hdeed
  obtain ⟨-, -, hok, -⟩ := deed?_eq_some hdeed
  exact ⟨r, w, .one hlast, hok, hdeeds, ha⟩

/-! ## Requests one after another -/

/-- What a started server answers to requests that are sent one after another, where every step gets
the same input `e`. -/
def repliesTo (cfg : Config) (e : Env) (requests : List Bytes) : List (Bytes × Json) :=
  requests.zip (Program.serve (reply cfg .zero) (fun c => Call.exec .zero c e) requests .started).1

/-- The world in which those requests leave it. -/
def leftBy (cfg : Config) (e : Env) (requests : List Bytes) : World :=
  (Program.serve (reply cfg .zero) (fun c => Call.exec .zero c e) requests .started).2

theorem served_repliesTo (cfg : Config) (e : Env) (requests : List Bytes) :
    Program.Served (reply cfg .zero) (Call.exec .zero) .started (repliesTo cfg e requests)
      (leftBy cfg e requests) :=
  Program.served_serve (reply cfg .zero) (Call.exec .zero) e requests .started

/-! ### A skirmish

The requests of a short game in which every action on the game occurs, and one request that is
refused.  The results show at it what they say of all runs. -/

namespace Skirmish

def joinOne : Bytes := ascii "\x7b\"action\":\"JOIN\",\"player_id\":1\x7d"

/-- The first coordinate is out of bounds. -/
def moveOne : Bytes :=
  ascii "\x7b\"action\":\"MOVE\",\"player_id\":1,\"x\":-7,\"y\":250\x7d"

def attackOne : Bytes := ascii "\x7b\"action\":\"ATTACK\",\"player_id\":0,\"target_id\":1\x7d"

def chatZero : Bytes := ascii "\x7b\"action\":\"CHAT\",\"player_id\":0,\"message\":\"hi\"\x7d"

def scoreOne : Bytes := ascii "\x7b\"action\":\"UPDATE_SCORE\",\"player_id\":1,\"score\":130\x7d"

def leaveZero : Bytes := ascii "\x7b\"action\":\"LEAVE\",\"player_id\":0\x7d"

/-- Player 1 joins, moves and is attacked, and player 0 leaves; the second `JOIN` of player 0 is
refused. -/
def requests : List Bytes :=
  [joinZero, joinOne, joinZero, moveOne, attackOne, chatZero, scoreOne, leaveZero]

end Skirmish

end MultiPlayerGame
