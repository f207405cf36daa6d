import MultiPlayerGame.Library.Sessions
import MultiPlayerGame.Json.Canonical
import MultiPlayerGame.Server.Reachable
import MultiPlayerGame.Simulator.PlayerBot

/-!
# The simulator

`Simulator::run` starts a number of bots, each a `PlayerBot` with a thread and a connection of its
own.  A bot joins, makes requests for as long as the test lasts, and leaves.  Which requests these
are depends on its random numbers, which are inputs here (`Draw`); it does not depend on what the
server answers.  So a bot is a client that sends a fixed list of requests, one after another
(`PlayerBot.script`), and notes of each whether it succeeded.

This list is what a bot notes if it reads every answer.  `PlayerBot.sendAndReceive` does not always
get that far: a `connect`, a `send` or a `recv` may fail, and an answer of more than 1 MiB is not
read.  The scripts leave all of that out, and the latencies with it.  So that nothing is claimed of
the code that is only true of the scripts, `PlayerBot.talk` also keeps the responses themselves:
from them it can be said when the connections carried a bot through, and that `PlayerBot::run` then
records what the script notes (`Results.Wire`).
-/

namespace MultiPlayerGame

open Bytes (ascii)
open Json (obj int)
open Sessions (Script)

/-- The part of `SimulatorConfig` that the requests of the bots depend on. -/
structure SimulatorConfig where
  playerCount : Int32
  basePlayerId : Int32
  deriving DecidableEq, Repr

/-- What `m_rng` yields in one round of the action loop: between 1 and 100, and twice between 0 and
1000. -/
structure Draw where
  roll : Nat
  x : Int32
  y : Int32
  deriving DecidableEq, Repr

namespace PlayerBot

variable (config : SimulatorConfig) (playerId : Int32)

def joinReq : Json := obj [("action", .string (ascii "JOIN")), ("player_id", int playerId)]

def moveReq (x y : Int32) : Json :=
  obj [("action", .string (ascii "MOVE")), ("player_id", int playerId), ("x", int x), ("y", int y)]

/-- The next player, and the first one after the last. -/
def targetId : Int32 :=
  if playerId = config.basePlayerId + config.playerCount - 1 then config.basePlayerId
  else playerId + 1

def attackReq : Json :=
  obj [("action", .string (ascii "ATTACK")), ("player_id", int playerId),
    ("target_id", int (targetId config playerId))]

def stateReq : Json := obj [("action", .string (ascii "GET_STATE")), ("player_id", int playerId)]

def chatReq : Json :=
  obj [("action", .string (ascii "CHAT")), ("player_id", int playerId),
    ("message", .string (ascii "ggwp"))]

def leaveReq : Json := obj [("action", .string (ascii "LEAVE")), ("player_id", int playerId)]

/-- One round of the action loop.  The requests are objects of integers and literals, so `dump` does
not throw. -/
def act (d : Draw) : Bytes × Bytes :=
  if d.roll ≤ 60 then (ascii "MOVE", (moveReq playerId d.x d.y).text)
  else if d.roll ≤ 75 then (ascii "ATTACK", (attackReq config playerId).text)
  else if d.roll ≤ 90 then (ascii "GET_STATE", (stateReq playerId).text)
  else (ascii "CHAT", (chatReq playerId).text)

/-- What a bot sends, with the action under which it notes the result. -/
def requests (draws : List Draw) : List (Bytes × Bytes) :=
  (ascii "JOIN", (joinReq playerId).text) :: draws.map (act config playerId) ++
    [(ascii "LEAVE", (leaveReq playerId).text)]

/-- One exchange after another, over a connection that carries them all.  What the bot gets to see
of a response is its text. -/
def exchangeAll : List (Bytes × Bytes) → Script Bytes Json (List (Bytes × Bool))
  | [] => return []
  | (action, jsonPayload) :: rest => .call jsonPayload fun response => do
    let later ← exchangeAll rest
    return (action, succeeded response.text) :: later

def script (draws : List Draw) : Script Bytes Json (List (Bytes × Bool)) :=
  exchangeAll (requests config playerId draws)

/-! ## The exchanges themselves -/

/-- What goes over the wire: of each exchange the action, the request and the response. -/
abbrev Exchanges : Type := List (Bytes × Bytes × Json)

/-- The same requests, with the exchanges as the result. -/
def talk : List (Bytes × Bytes) → Script Bytes Json Exchanges
  | [] => return []
  | (action, jsonPayload) :: rest => .call jsonPayload fun response => do
    let later ← talk rest
    return (action, jsonPayload, response) :: later

/-- The requests of some exchanges. -/
def Exchanges.requests (exchanges : Exchanges) : List (Bytes × Bytes) :=
  exchanges.map fun e => (e.1, e.2.1)

/-- What a bot notes of them.  The action, and whether the text of the answer says `ok`. -/
def Exchanges.noted (exchanges : Exchanges) : List (Bytes × Bool) :=
  exchanges.map fun e => (e.1, succeeded e.2.2.text)

/-- **A script notes the exchanges.**  A list of requests and answers determines what is noted,
answer by answer. -/
theorem exchangeAll_eq (requests : List (Bytes × Bytes)) :
    exchangeAll requests = talk requests >>= fun exchanges => return exchanges.noted := by
  induction requests with
  | nil => rfl
  | cons request rest ih =>
    obtain ⟨action, jsonPayload⟩ := request
    rw [exchangeAll, talk]
    refine congrArg (Program.call jsonPayload) (funext fun response => ?_)
    rw [ih]
    refine (Program.bind_bind (talk rest) _ _).trans ?_
    exact (Program.bind_bind (talk rest)
      (fun later => return (action, jsonPayload, response) :: later)
      fun exchanges => return Exchanges.noted exchanges).symm

/-- The requests are made as they are listed. -/
theorem talk_returns (requests : List (Bytes × Bytes)) :
    (talk requests).Returns fun exchanges => exchanges.requests = requests := by
  induction requests with
  | nil => rfl
  | cons request rest ih =>
    intro response
    refine ih.bind fun later hlater => ?_
    change (request.1, request.2) :: later.requests = request :: rest
    rw [hlater]

/-- A script that has gone through some exchanges notes them. -/
theorem follows_noted (exchanges : Exchanges) :
    Sessions.Follows (exchangeAll exchanges.requests) (exchanges.map Prod.snd)
      (.ret exchanges.noted) := by
  induction exchanges with
  | nil => exact .nil
  | cons e rest ih =>
    exact .cons (ih.bind_ret fun later => (e.1, succeeded e.2.2.text) :: later)

/-! ## What the server makes of the requests -/

/-- A field of a request: an integer, or a string that is UTF-8. -/
def Plain (f : String × Json) : Prop :=
  Utf8.Valid (ascii f.1) ∧ ((∃ n, f.2 = int n) ∨ ∃ s, f.2 = .string s ∧ Utf8.Valid s)

theorem Plain.int {key : String} (hkey : Utf8.Valid (ascii key)) (n : Int32) :
    Plain (key, Json.int n) := ⟨hkey, Or.inl ⟨n, rfl⟩⟩

theorem Plain.string {key : String} (hkey : Utf8.Valid (ascii key)) {s : Bytes}
    (hs : Utf8.Valid s) : Plain (key, .string s) := ⟨hkey, Or.inr ⟨s, rfl, hs⟩⟩

theorem parse_obj {fields : List (String × Json)} (h : ∀ f ∈ fields, Plain f) :
    Parser.parse (obj fields).text = some (obj fields) := by
  refine Parser.parse_text_obj fun f hf => ?_
  obtain ⟨hkey, ⟨n, hn⟩ | ⟨s, hs, hvalid⟩⟩ := h f hf
  · rw [hn]
    exact ⟨hkey, Json.readable_of_plain (Json.plain_int n), trivial⟩
  · rw [hs]
    exact ⟨hkey, decide_eq_true hvalid, trivial⟩

/-- **A request is decoded by the checks of its action.**  The text that the bot writes is parsed
back as the object that it has built. -/
theorem decode_obj {fields : List (String × Json)} (h : ∀ f ∈ fields, Plain f)
    {a : RequestHandler.Action} (ha : Request.action? (obj fields) = some a) :
    Request.decode (obj fields).text = Request.ofAction (obj fields) a :=
  Request.decode_of_action (parse_obj h) ha

theorem action_valid : Utf8.Valid (ascii "action") := by decide

theorem player_id_valid : Utf8.Valid (ascii "player_id") := by decide

/-- The two fields that every request begins with. -/
theorem plain_cons {action : String} (haction : Utf8.Valid (ascii action)) (p : Int32)
    {rest : List (String × Json)} (hrest : ∀ f ∈ rest, Plain f) :
    ∀ f ∈ ("action", .string (ascii action)) :: ("player_id", int p) :: rest, Plain f :=
  List.forall_mem_cons.mpr ⟨.string action_valid haction,
    List.forall_mem_cons.mpr ⟨.int player_id_valid p, hrest⟩⟩

theorem action?_obj (a : RequestHandler.Action) (rest : List (String × Json)) :
    Request.action? (obj (("action", .string (ascii a.name)) :: rest)) = some a := by
  have hname : RequestHandler.Action.ofName? (ascii a.name) = some a := by
    cases a <;> rfl
  simpa [Request.action?, RequestHandler.getString] using hname

theorem requireInt_obj {key : String} {fields : List (String × Json)} {n : Int32}
    (h : (obj fields).field? (ascii key) = some (int n)) :
    RequestHandler.requireInt (obj fields) key = .ok n := by
  rw [RequestHandler.requireInt, RequestHandler.requireField, h]
  simp [RequestHandler.getInt, int, Json.toInt32]

theorem decode_joinReq : Request.decode (joinReq playerId).text = .command (.join playerId) := by
  refine (decode_obj (plain_cons (by decide) playerId fun f hf => by cases hf)
    (action?_obj .join _)).trans ?_
  rw [Request.ofAction, requireInt_obj (n := playerId) (by simp +decide)]
  rfl

theorem decode_leaveReq : Request.decode (leaveReq playerId).text = .command (.leave playerId) := by
  refine (decode_obj (plain_cons (by decide) playerId fun f hf => by cases hf)
    (action?_obj .leave _)).trans ?_
  rw [Request.ofAction, requireInt_obj (n := playerId) (by simp +decide)]
  rfl

theorem decode_stateReq : Request.decode (stateReq playerId).text = .getState (some playerId) := by
  refine (decode_obj (plain_cons (by decide) playerId fun f hf => by cases hf)
    (action?_obj .getState _)).trans ?_
  rw [Request.ofAction]
  simp +decide [RequestHandler.getInt, int, Json.toInt32]

theorem decode_moveReq (x y : Int32) :
    Request.decode (moveReq playerId x y).text = .command (.move playerId x y) := by
  have hrest : ∀ f ∈ [("x", int x), ("y", int y)], Plain f :=
    List.forall_mem_cons.mpr
      ⟨.int (by decide) x, List.forall_mem_singleton.mpr (.int (by decide) y)⟩
  refine (decode_obj (plain_cons (by decide) playerId hrest) (action?_obj .move _)).trans ?_
  rw [Request.ofAction, requireInt_obj (n := playerId) (by simp +decide),
    requireInt_obj (n := x) (by simp +decide), requireInt_obj (n := y) (by simp +decide)]
  rfl

theorem decode_attackReq : Request.decode (attackReq config playerId).text =
    .command (.attack playerId (targetId config playerId)) := by
  refine (decode_obj (plain_cons (by decide) playerId (List.forall_mem_singleton.mpr
    (.int (by decide) _))) (action?_obj .attack _)).trans ?_
  rw [Request.ofAction, requireInt_obj (n := playerId) (by simp +decide),
    requireInt_obj (n := targetId config playerId) (by simp +decide)]
  rfl

theorem decode_chatReq : Request.decode (chatReq playerId).text =
    .command (.chat playerId (ascii "ggwp")) := by
  refine (decode_obj (plain_cons (by decide) playerId (List.forall_mem_singleton.mpr
    (.string (by decide) (by decide)))) (action?_obj .chat _)).trans ?_
  rw [Request.ofAction, requireInt_obj (n := playerId) (by simp +decide)]
  simp +decide [Request.check, RequestHandler.requireString, RequestHandler.requireField,
    RequestHandler.getString]

end PlayerBot

/-- A bot that `Simulator::run` starts, with its random numbers. -/
structure Bot where
  playerId : Int32
  draws : List Draw
  deriving DecidableEq, Repr

namespace SimulatorConfig

variable (config : SimulatorConfig)

/-- The number of bots. -/
def bots : Nat := config.playerCount.toInt.toNat

/-- The player of the `i`-th bot. -/
def playerId (i : Nat) : Int32 := config.basePlayerId + Int32.ofNat i

/-- The bot that the `i`-th one attacks. -/
def victim (i : Nat) : Nat := if i + 1 = config.bots then 0 else i + 1

/-- The bot that attacks the `i`-th one. -/
def attacker (i : Nat) : Nat := if i = 0 then config.bots - 1 else i - 1

/-- `Simulator::run` starts this bot as its `i`-th one.  There are more than `i` bots, and its
player has the id that belongs to the number. -/
structure Starts (i : Nat) (bot : Bot) : Prop where
  lt : i < config.bots
  playerId : bot.playerId = config.playerId i

variable {config}

theorem victim_lt {i : Nat} (hi : i < config.bots) : config.victim i < config.bots := by
  unfold victim
  split
  · omega
  · omega

theorem attacker_victim (i : Nat) :
    config.attacker (config.victim i) = i := by
  unfold victim
  split
  · rw [attacker, if_pos rfl]
    omega
  · rw [attacker, if_neg (Nat.succ_ne_zero i)]
    omega

theorem victim_attacker {i : Nat} (hi : i < config.bots) :
    config.victim (config.attacker i) = i := by
  unfold attacker
  split
  · rw [victim, if_pos (by omega)]
    omega
  · rw [victim, if_neg (by omega)]
    omega

theorem bots_lt : config.bots < 2 ^ 31 := by
  have hlt := config.playerCount.toInt_lt
  unfold bots
  omega

/-- **No two bots play the same player.**  Their ids are consecutive, and there are fewer than `2 ^
31` bots, so that none of the ids comes round. -/
theorem playerId_injective {i j : Nat} (hi : i < config.bots) (hj : j < config.bots)
    (h : config.playerId i = config.playerId j) : i = j := by
  have hlt : config.bots < 2 ^ 31 := bots_lt
  have hsame : (Int32.ofNat i).toInt = (Int32.ofNat j).toInt :=
    congrArg Int32.toInt ((Int32.add_right_inj config.basePlayerId).mp h)
  rw [Int32.toInt_ofNat_of_lt (by omega), Int32.toInt_ofNat_of_lt (by omega)] at hsame
  exact Int.ofNat.inj hsame

theorem playerId_succ (i : Nat) : config.playerId i + 1 = config.playerId (i + 1) := by
  rw [playerId, playerId, Int32.ofNat_add, ← Int32.add_assoc]
  rfl

/-- The player that `targetId` compares with. -/
theorem playerId_last (h : 0 < config.bots) :
    config.basePlayerId + config.playerCount - 1 = config.playerId (config.bots - 1) := by
  have hcount : config.playerCount = Int32.ofNat config.bots := by
    have hpos : 0 ≤ config.playerCount.toInt := by
      unfold bots at h
      omega
    rw [bots, ← Int32.ofInt_eq_ofNat, Int.toNat_of_nonneg hpos, Int32.ofInt_toInt]
  obtain ⟨n, hn⟩ := Nat.exists_eq_add_one.mpr h
  rw [hcount, hn, Nat.add_sub_cancel]
  show config.playerId (n + 1) - 1 = config.playerId n
  rw [← playerId_succ, Int32.add_sub_cancel]

/-- **The target of a bot is the player of its victim.**  So whoever attacks a player is the same
bot all the time. -/
theorem targetId_playerId {i : Nat} (hi : i < config.bots) :
    PlayerBot.targetId config (config.playerId i) = config.playerId (config.victim i) := by
  have hlast : config.playerId i = config.playerId (config.bots - 1) ↔ i + 1 = config.bots := by
    constructor
    · intro h
      have := playerId_injective hi (by omega) h
      omega
    · intro h
      rw [← h, Nat.add_sub_cancel]
  rw [PlayerBot.targetId, playerId_last (Nat.zero_lt_of_lt hi), victim]
  by_cases h : i + 1 = config.bots
  · rw [if_pos (hlast.mpr h), if_pos h]
    exact (Int32.add_zero _).symm
  · rw [if_neg fun h' => h (hlast.mp h'), if_neg h, playerId_succ]

end SimulatorConfig
end MultiPlayerGame
