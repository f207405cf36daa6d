import MultiPlayerGame.Json.RoundTrip
import MultiPlayerGame.Results.Errors
import MultiPlayerGame.Server.Records

/-!
# The event log is a journal

The log says enough to reconstruct the game: `replay` folds the events over an empty map, reading
what it needs from their data strings with the JSON parser.  As long as no event has been dropped,
it ends with the players and the number of kills of the server (`journal_of_served`).

The data strings are put together from pieces, not printed from a value.  Each is shown to be the
text of a value (`moveData_text` and its siblings), so `Parser.parse_text` applies.

## Why it holds

The journal is an invariant of the run: replaying the events so far gives the board so far
(`IsJournal`).  A request that is refused pushes nothing and changes nothing.  One that is carried
out pushes one event, and `replayEvent_rule` says that this event takes the old board to the new
one, one case for each of the six commands.  `ATTACK` is the case with content: its event has the
target, the damage and whether the target was eliminated, and what the attacker has earned is worked
out from these: 100 for an elimination and 10 for any other hit.

Nothing is read from the server but the log.  That the data parse is a part of the statement, since
a replay that skipped what it cannot read would be worth little.

The bound of 1000 events is that of the log.  A longer run may have lost its first events, and with
them the start of the story.
-/

namespace MultiPlayerGame
namespace Journal

open Bytes (ascii)
open Json (obj int)
open Program (Served)
open RequestHandler
open GameState (clamp mapMin mapMax)

/-! ## Replaying events -/

/-- The players, without the times at which they joined, and the number of kills. -/
@[ext]
structure Board where
  player : Int32 → Option Standing
  totalKills : Nat

def Board.empty : Board := ⟨fun _ => none, 0⟩

def Board.set (p : Int32) (s : Option Standing) (b : Board) : Board :=
  { b with player := Function.update b.player p s }

/-- Change the standing of a player, if it is there. -/
def Board.modify (p : Int32) (f : Standing → Standing) (b : Board) : Board :=
  b.set p ((b.player p).map f)

/-- What the rules see, without the status of the match. -/
def board (a : Arena) : Board := ⟨a.player, a.totalKills⟩

/-- An integer in the data of an event. -/
def intField (data : Option Json) (key : String) : Option Int32 :=
  (data.bind fun j => j.field? (ascii key)).bind getInt

/-- A truth value in the data of an event. -/
def boolField (data : Option Json) (key : String) : Option Bool :=
  (data.bind fun j => j.field? (ascii key)).bind fun
    | .boolean b => some b
    | _ => none

/-- What an `ATTACK` event says. -/
def replayAttack (playerId targetId damage : Int32) (eliminated : Bool) (b : Board) : Board :=
  if eliminated then
    let b := (b.modify playerId fun s => { s with score := s.score + 100, kills := s.kills + 1 })
    { b.set targetId none with totalKills := b.totalKills + 1 }
  else
    (b.modify playerId fun s => { s with score := s.score + 10 }).modify targetId
      fun s => { s with health := s.health - damage }

/-- What an event says.  What cannot be read changes nothing, so that the replay is a function of
any log. -/
def replayEvent (b : Board) (ev : GameEvent) : Board :=
  let data := Parser.parse ev.data
  if ev.eventType = ascii "JOIN" then b.set ev.playerId (some .initial)
  else if ev.eventType = ascii "MOVE" then
    match intField data "x", intField data "y" with
    | some x, some y => b.modify ev.playerId fun s => { s with x, y }
    | _, _ => b
  else if ev.eventType = ascii "ATTACK" then
    match intField data "target_id", intField data "damage", boolField data "eliminated" with
    | some targetId, some damage, some eliminated =>
      replayAttack ev.playerId targetId damage eliminated b
    | _, _, _ => b
  else if ev.eventType = ascii "UPDATE_SCORE" then
    match intField data "score" with
    | some score => b.modify ev.playerId fun s => { s with score }
    | none => b
  else if ev.eventType = ascii "LEAVE" then b.set ev.playerId none
  else b

def replay (events : List GameEvent) : Board := events.foldl replayEvent .empty

/-! ## The data strings parse -/

theorem canon_integer (n : Int) : (Json.integer n).canon = .integer n := rfl

theorem toInt32_toInt (n : Int32) : Json.toInt32 n.toInt = n := Int32.ofInt_toInt n

theorem getInt_int (n : Int32) : getInt (int n) = some n := by
  simp [getInt, int, toInt32_toInt]

theorem moveData_text (x y : Int32) :
    moveData x y = (Json.object [(ascii "x", int x), (ascii "y", int y)]).text := by
  have hx : ascii "\x7b\"x\":" = 0x7B :: Json.quote (ascii "x") ++ [0x3A] := by decide
  have hy : ascii ",\"y\":" = 0x2C :: Json.quote (ascii "y") ++ [0x3A] := by decide
  have hend : ascii "\x7d" = [0x7D] := by decide
  simp [moveData, hx, hy, hend, Json.text, Json.textFields, int, toString]

theorem scoreData_text (score : Int32) :
    scoreData score = (Json.object [(ascii "score", int score)]).text := by
  have hscore : ascii "\x7b\"score\":" = 0x7B :: Json.quote (ascii "score") ++ [0x3A] := by decide
  have hend : ascii "\x7d" = [0x7D] := by decide
  simp [scoreData, hscore, hend, Json.text, Json.textFields, int, toString]

theorem leaveData_text (finalScore : Int32) :
    leaveData finalScore = (Json.object [(ascii "final_score", int finalScore)]).text := by
  have hkey : ascii "\x7b\"final_score\":" =
      0x7B :: Json.quote (ascii "final_score") ++ [0x3A] := by
    decide
  have hend : ascii "\x7d" = [0x7D] := by decide
  simp [leaveData, hkey, hend, Json.text, Json.textFields, int, toString]

theorem chatData_text (message : Bytes) :
    chatData message =
      (Json.object [(ascii "len", .integer (message.length % 2 ^ 64 : Nat))]).text := by
  have hkey : ascii "\x7b\"len\":" = 0x7B :: Json.quote (ascii "len") ++ [0x3A] := by decide
  have hend : ascii "\x7d" = [0x7D] := by decide
  have hdecimal : ∀ n : Nat, Bytes.decimal (n : Int) = Bytes.digits n := fun _ => rfl
  simp only [chatData, hkey, hend, Json.text, Json.textFields, hdecimal]
  simp

theorem attackData_text (targetId damage : Int32) (eliminated : Bool) :
    attackData targetId damage eliminated = (Json.object [(ascii "target_id", int targetId),
      (ascii "damage", int damage), (ascii "eliminated", .boolean eliminated)]).text := by
  have htarget : ascii "\x7b\"target_id\":" = 0x7B :: Json.quote (ascii "target_id") ++ [0x3A] := by
    decide
  have hdamage : ascii ",\"damage\":" = 0x2C :: Json.quote (ascii "damage") ++ [0x3A] := by decide
  have heliminated : ascii ",\"eliminated\":" =
      0x2C :: Json.quote (ascii "eliminated") ++ [0x3A] := by
    decide
  have hend : ascii "\x7d" = [0x7D] := by decide
  cases eliminated with
  | false =>
    simp [attackData, htarget, hdamage, heliminated, hend, Json.text, Json.textFields, int,
      toString]
  | true =>
    simp [attackData, htarget, hdamage, heliminated, hend, Json.text, Json.textFields, int,
      toString]

/-! ### Reading the fields back -/

/-- What `parse_text_object` asks of a field. -/
theorem field_int {key : String} (hkey : Utf8.Valid (ascii key)) (n : Int32) :
    Utf8.Valid (ascii key) ∧ (int n).plain = true ∧ (int n).canon = int n :=
  ⟨hkey, Json.plain_int n, rfl⟩

theorem parse_moveData (x y : Int32) :
    Parser.parse (moveData x y) = some (.ofFields [(ascii "x", int x), (ascii "y", int y)]) := by
  rw [moveData_text]
  refine Parser.parse_text_object ?_
  exact List.forall_mem_cons.mpr ⟨field_int (by decide) x,
    List.forall_mem_singleton.mpr (field_int (by decide) y)⟩

theorem parse_scoreData (score : Int32) :
    Parser.parse (scoreData score) = some (.ofFields [(ascii "score", int score)]) := by
  rw [scoreData_text]
  refine Parser.parse_text_object ?_
  exact List.forall_mem_singleton.mpr (field_int (by decide) score)

theorem parse_leaveData (finalScore : Int32) :
    Parser.parse (leaveData finalScore) =
      some (.ofFields [(ascii "final_score", int finalScore)]) := by
  rw [leaveData_text]
  refine Parser.parse_text_object ?_
  exact List.forall_mem_singleton.mpr (field_int (by decide) finalScore)

theorem parse_chatData (message : Bytes) :
    Parser.parse (chatData message) =
      some (.ofFields [(ascii "len", .integer (message.length % 2 ^ 64 : Nat))]) := by
  rw [chatData_text]
  refine Parser.parse_text_object ?_
  have hvalid : Utf8.Valid (ascii "len") := by decide
  have hlt : message.length % 2 ^ 64 < 2 ^ 64 := Nat.mod_lt _ (by omega)
  have hplain := Json.plain_integer (n := (message.length % 2 ^ 64 : Nat)) ⟨by omega, by omega⟩
  exact List.forall_mem_singleton.mpr ⟨hvalid, hplain, canon_integer _⟩

theorem parse_attackData (targetId damage : Int32) (eliminated : Bool) :
    Parser.parse (attackData targetId damage eliminated) =
      some (.ofFields [(ascii "target_id", int targetId), (ascii "damage", int damage),
        (ascii "eliminated", .boolean eliminated)]) := by
  rw [attackData_text]
  refine Parser.parse_text_object ?_
  have hvalid : Utf8.Valid (ascii "eliminated") := by decide
  exact List.forall_mem_cons.mpr ⟨field_int (by decide) targetId,
    List.forall_mem_cons.mpr ⟨field_int (by decide) damage,
      List.forall_mem_singleton.mpr ⟨hvalid, rfl, rfl⟩⟩⟩

theorem parse_empty : Parser.parse (ascii "\x7b\x7d") = some (.object []) := by rfl

/-! ## Each event says what its command did -/

theorem replayEvent_join {ev : GameEvent} (htype : ev.eventType = ascii "JOIN") (b : Board) :
    replayEvent b ev = b.set ev.playerId (some .initial) := by
  rw [replayEvent, htype, if_pos rfl]

theorem replayEvent_move {ev : GameEvent} {x y : Int32} (htype : ev.eventType = ascii "MOVE")
    (hdata : ev.data = moveData x y) (b : Board) :
    replayEvent b ev = b.modify ev.playerId fun s => { s with x, y } := by
  have hx : intField (some (.ofFields [(ascii "x", int x), (ascii "y", int y)])) "x" = some x := by
    simp +decide [intField, Json.ofFields, Json.field?, Json.findField_setField, getInt_int]
  have hy : intField (some (.ofFields [(ascii "x", int x), (ascii "y", int y)])) "y" = some y := by
    simp +decide [intField, Json.ofFields, Json.field?, Json.findField_setField, getInt_int]
  rw [replayEvent, htype, if_neg (by decide), if_pos rfl, hdata, parse_moveData]
  simp only [hx, hy]

/-- The fields of an `ATTACK` event. -/
theorem attackData_fields (targetId damage : Int32) (eliminated : Bool) :
    intField (Parser.parse (attackData targetId damage eliminated)) "target_id" = some targetId ∧
      intField (Parser.parse (attackData targetId damage eliminated)) "damage" = some damage ∧
      boolField (Parser.parse (attackData targetId damage eliminated)) "eliminated" =
        some eliminated := by
  rw [parse_attackData]
  refine ⟨?_, ?_, ?_⟩
  · simp +decide [intField, Json.ofFields, Json.field?, Json.findField_setField, getInt_int]
  · simp +decide [intField, Json.ofFields, Json.field?, Json.findField_setField, getInt_int]
  · simp +decide [boolField, Json.ofFields, Json.field?, Json.findField_setField]

theorem replayEvent_attack {ev : GameEvent} {targetId damage : Int32} {eliminated : Bool}
    (htype : ev.eventType = ascii "ATTACK")
    (hdata : ev.data = attackData targetId damage eliminated)
    (b : Board) :
    replayEvent b ev = replayAttack ev.playerId targetId damage eliminated b := by
  obtain ⟨htarget, hdamage, heliminated⟩ := attackData_fields targetId damage eliminated
  rw [replayEvent, htype, if_neg (by decide), if_neg (by decide), if_pos rfl, hdata]
  simp only [htarget, hdamage, heliminated]

theorem replayEvent_score {ev : GameEvent} {score : Int32}
    (htype : ev.eventType = ascii "UPDATE_SCORE") (hdata : ev.data = scoreData score) (b : Board) :
    replayEvent b ev = b.modify ev.playerId fun s => { s with score } := by
  have hscore : intField (some (.ofFields [(ascii "score", int score)])) "score" = some score := by
    simp +decide [intField, Json.ofFields, Json.field?, Json.findField_setField, getInt_int]
  rw [replayEvent, htype, if_neg (by decide), if_neg (by decide), if_neg (by decide), if_pos rfl,
    hdata, parse_scoreData]
  simp only [hscore]

theorem replayEvent_leave {ev : GameEvent} (htype : ev.eventType = ascii "LEAVE") (b : Board) :
    replayEvent b ev = b.set ev.playerId none := by
  rw [replayEvent, htype, if_neg (by decide), if_neg (by decide), if_neg (by decide),
    if_neg (by decide), if_pos rfl]

theorem replayEvent_chat {ev : GameEvent} (htype : ev.eventType = ascii "CHAT") (b : Board) :
    replayEvent b ev = b := by
  rw [replayEvent, htype, if_neg (by decide), if_neg (by decide), if_neg (by decide),
    if_neg (by decide), if_neg (by decide)]

theorem modify_of_player {b : Board} {p : Int32} {s : Standing} (hs : b.player p = some s)
    (f : Standing → Standing) : b.modify p f = b.set p (some (f s)) := by
  rw [Board.modify, hs, Option.map_some]

/-- A hit that is not lethal takes the damage off the health. -/
theorem healthAfter_of_not_lethal {s : Standing} (h : ¬ Arena.Lethal s) :
    Arena.healthAfter s = s.health - GameState.attackDamage := by
  unfold Arena.Lethal at h
  unfold Arena.healthAfter GameState.max at *
  split
  · rfl
  · rename_i hle
    rw [if_neg hle] at h
    exact absurd rfl h

theorem replay_attack {a : Arena} {p t : Int32} {attacker target : Standing} (hne : p ≠ t)
    (hp : a.player p = some attacker) (ht : a.player t = some target) :
    replayAttack p t GameState.attackDamage (Arena.Lethal target) (board a) =
      ⟨Function.update (Function.update a.player p (some (Arena.rewarded attacker target))) t
        (Arena.struck target), a.totalKills + if Arena.Lethal target then 1 else 0⟩ := by
  have hp' : (board a).player p = some attacker := hp
  have ht' : ∀ s, ((board a).set p s).player t = some target := fun s => by
    change Function.update a.player p s t = some target
    rw [Function.update_of_ne (Ne.symm hne), ht]
  unfold replayAttack Arena.rewarded Arena.struck
  rw [modify_of_player hp', modify_of_player hp']
  by_cases hlethal : Arena.Lethal target
  · simp only [hlethal, decide_true, if_true]
    rfl
  · simp only [hlethal, decide_false, Bool.false_eq_true, if_false]
    rw [modify_of_player (ht' _), healthAfter_of_not_lethal hlethal]
    rfl

/-- **An event says what its command did**, and its data parse.  The board before the event is the
one of the arena before the command, and the board after it that of the arena after it. -/
theorem replayEvent_rule {c : Command} {a a' : Arena} {data : Bytes} {r : Json}
    (h : c.rule a = .ok ((data, r), a')) {ev : GameEvent} (hplayer : ev.playerId = c.playerId)
    (htype : ev.eventType = ascii c.action.name) (hdata : ev.data = data) :
    replayEvent (board a) ev = board a' ∧ (Parser.parse ev.data).isSome := by
  cases Command.carriedOut_of_rule h with
  | join playerId _ =>
    rw [replayEvent_join htype, hplayer, hdata, parse_empty]
    exact ⟨rfl, rfl⟩
  | move playerId x y s present =>
    rw [replayEvent_move htype hdata, hplayer, hdata, parse_moveData]
    exact ⟨modify_of_player (b := board a) present _, rfl⟩
  | attack playerId targetId attacker target ne present targetPresent =>
    rw [replayEvent_attack htype hdata, hplayer, hdata, parse_attackData]
    exact ⟨replay_attack ne present targetPresent, rfl⟩
  | chat playerId message _ =>
    rw [replayEvent_chat htype, hdata, parse_chatData]
    exact ⟨rfl, rfl⟩
  | updateScore playerId score s present =>
    rw [replayEvent_score htype hdata, hplayer, hdata, parse_scoreData]
    exact ⟨modify_of_player (b := board a) present _, rfl⟩
  | leave playerId s _ =>
    rw [replayEvent_leave htype, hplayer, hdata, parse_leaveData]
    refine ⟨?_, rfl⟩
    simp only [Arena.finishIfEmpty]
    split <;> rfl

/-! ## Whole runs -/

/-- **The log is a journal**: no event has been dropped, replaying them gives the players and the
kills, and their data parse. -/
structure IsJournal (g : GameState) : Prop where
  length : g.events.length + 1 = g.nextEventId
  replays : replay g.events = board g.arena
  parses : ∀ ev ∈ g.events, (Parser.parse ev.data).isSome

theorem replay_concat (events : List GameEvent) (ev : GameEvent) :
    replay (events ++ [ev]) = replayEvent (replay events) ev := by
  rw [replay, List.foldl_append]
  rfl

/-- A request that is served leaves a journal that has room for one more event a journal. -/
theorem isJournal_responds {fp : Doubles} {unreadable : Prop} {q : Request} {g g' : GameState}
    {r : Json} (h : Responds fp unreadable q g r g') :
    g.nextEventId ≤ g'.nextEventId ∧
      (g'.nextEventId ≤ GameState.maxEvents + 1 → IsJournal g → IsJournal g') := by
  cases h with
  | done c now _ g₁ data r timestamp happly =>
    have hlog := Command.log_apply happly
    obtain ⟨hevents, hnext⟩ := Prod.mk.inj hlog
    refine ⟨?_, fun hroom hjournal => ?_⟩
    · change g.nextEventId ≤ g₁.nextEventId + 1
      rw [hnext]
      exact Nat.le_succ _
    change g₁.nextEventId + 1 ≤ GameState.maxEvents + 1 at hroom
    have hlength := hjournal.length
    obtain ⟨ev, hev⟩ : ∃ ev : GameEvent, ev =
        ⟨g₁.nextEventId, c.playerId, ascii c.action.name, data, timestamp⟩ := ⟨_, rfl⟩
    -- nothing is dropped
    have hevents' : (g₁.record c.playerId (ascii c.action.name) data timestamp).events =
        g.events ++ [ev] := by
      rw [hev, ← hevents]
      refine if_neg ?_
      simp only [GameState.fetchAddEventId, List.length_append, List.length_singleton]
      rw [hevents]
      omega
    have hrule := c.arena_apply now g
    rw [happly] at hrule
    have hreplay : replayEvent (board g.arena) ev = board g₁.arena ∧
        (Parser.parse ev.data).isSome :=
      replayEvent_rule hrule.symm (by rw [hev]) (by rw [hev]) (by rw [hev])
    refine ⟨?_, ?_, ?_⟩
    · rw [hevents', List.length_append, List.length_singleton, hlength, ← hnext]
      rfl
    · rw [hevents', replay_concat, hjournal.replays, hreplay.1]
      rfl
    · rw [hevents']
      intro ev' hev'
      rcases List.mem_append.mp hev' with hev' | hev'
      · exact hjournal.parses ev' hev'
      · rw [List.mem_singleton.mp hev']
        exact hreplay.2
  | _ => exact ⟨Nat.le_refl _, fun _ => id⟩

/-- The players of a run whose log is a journal are those of the replay, each under its own id. -/
theorem IsJournal.players {g : GameState} (h : IsJournal g) (hkeyed : Records.Keyed g) (p : Int32) :
    (g.players.lookup p).map (fun s => (s.playerId, s.standing)) =
      ((replay g.events).player p).map fun s => (p, s) := by
  have hplayer : (replay g.events).player p = (g.players.lookup p).map PlayerState.standing := by
    rw [h.replays]
    rfl
  rw [hplayer, Option.map_map]
  cases hs : g.players.lookup p with
  | none => rfl
  | some s =>
    have hid := hkeyed p s hs
    rw [Option.map_some, Option.map_some, hid]
    rfl

/-- **The event log of a run of at most 1000 events is a journal.**  Replaying it gives the players
with everything that is recorded of them but the times at which they joined: there is a record under
an id exactly if the replay has a player there, it carries that id, and it says how the player
stands. The replay gives the number of kills as well, and every data string parses. -/
theorem journal_of_served {cfg : Config} {fp : Doubles} {w₀ w : World}
    {history : List (Bytes × Json)} (hfresh : w₀.Fresh)
    (h : Served (reply cfg fp) (Call.exec fp) w₀ history w)
    (hevents : w.game.totalEvents ≤ GameState.maxEvents) :
    (∀ p, (w.game.players.lookup p).map (fun s => (s.playerId, s.standing)) =
      ((replay w.game.events).player p).map fun s => (p, s)) ∧
    (replay w.game.events).totalKills = w.game.totalKills ∧
    ∀ ev ∈ w.game.events, ∃ j, Parser.parse ev.data = some j := by
  have hkeyed : Records.Keyed w.game := Records.keyed_of_reachable ⟨w₀, history, hfresh, h⟩
  have hjournal : w.game.nextEventId ≤ GameState.maxEvents + 1 → IsJournal w.game := by
    clear hevents hkeyed
    induction h with
    | nil =>
      obtain ⟨matchStart, hgame⟩ := hfresh
      rw [hgame]
      exact fun _ => ⟨rfl, rfl, fun _ hno => by cases hno⟩
    | snoc _ last ih =>
      rename_i t u raw r _
      have last' : Program.Runs (Call.execVia fp id) (reply cfg fp raw) t r u := last
      obtain ⟨hle, hnext⟩ := isJournal_responds (reply_responds last').1
      exact fun hroom => hnext hroom (ih (Nat.le_trans hle hroom))
  have hroom : w.game.nextEventId ≤ GameState.maxEvents + 1 := by
    unfold GameState.totalEvents at hevents
    omega
  have hj := hjournal hroom
  refine ⟨hj.players hkeyed, ?_, fun ev hev => Option.isSome_iff_exists.mp (hj.parses ev hev)⟩
  rw [hj.replays]
  rfl

/-- The journal of the skirmish: seven events, and player 1 alone is left, as the replay says. -/
theorem journal_of_skirmish :
    let w := leftBy ⟨true, true⟩ {} Skirmish.requests
    w.game.totalEvents = 7 ∧
    (∀ p, (w.game.players.lookup p).map (fun s => (s.playerId, s.standing)) =
      ((replay w.game.events).player p).map fun s => (p, s)) ∧
    (replay w.game.events).player 1 = some ⟨0, 250, 75, 130, 0⟩ := by
  have hevents : (leftBy ⟨true, true⟩ {} Skirmish.requests).game.totalEvents = 7 := by
    decide +kernel
  obtain ⟨hplayers, -, -⟩ := journal_of_served World.started_fresh
    (served_repliesTo ⟨true, true⟩ {} Skirmish.requests) (by rw [hevents]; decide)
  exact ⟨hevents, hplayers, by decide +kernel⟩

end Journal
end MultiPlayerGame
