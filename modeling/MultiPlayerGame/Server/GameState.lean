import MultiPlayerGame.Json.Value
import MultiPlayerGame.Library.KeyedMap

/-!
# The game state

The class `GameState`, one definition for each of its methods.  Every method is one critical section
of the mutex, so a definition maps the state before it to the state after it.  A method that returns
`false` and sets `err` is an `Except.error` with that text; the source mutates nothing on those
paths.

Integers of the source's type `int` are `Int32`, with arithmetic modulo `2 ^ 32`.  The 64-bit
counters are natural numbers.  Clock readings are inputs, in nanoseconds; a method that reads the
clock more than once gets a sequence of them.

## What later modules use of it

A method that succeeded has found certain players and has left a certain state.  The lemmas at the
end of the player operations say this once for each method (`addPlayer_inv` and its siblings; the
one for `attackPlayer` is in `Server.Arena`, with the lemma about which of its branches can be
taken).  A method that refuses has one of three texts, and `Refusal` lists them.  Later proofs take
a call apart with these and do not unfold the methods.

The order of the comparisons is that of the source, and it can be seen from outside: an `ATTACK` of
a player on itself is refused for that reason, whether or not the player is in the game.
-/

namespace MultiPlayerGame

open Bytes (ascii decimal)
open Json (obj int)

/-- `std::to_string` of an `int`. -/
def toString (n : Int32) : Bytes := decimal n.toInt

structure PlayerState where
  playerId : Int32
  x : Int32 := 500
  y : Int32 := 500
  health : Int32 := 100
  score : Int32 := 0
  kills : Int32 := 0
  joinedAt : Int
  deriving DecidableEq, Repr

structure GameEvent where
  eventId : Nat
  playerId : Int32
  eventType : Bytes
  data : Bytes
  timestamp : Int
  deriving DecidableEq, Repr

inductive MatchStatus where
  | waiting
  | active
  | finished
  deriving DecidableEq, Repr

structure AttackResult where
  damage : Int32
  targetHealthAfter : Int32
  attackerScore : Int32
  targetEliminated : Bool
  deriving DecidableEq, Repr

structure GameState where
  players : KeyedMap Int32 PlayerState := ∅
  events : List GameEvent := []
  status : MatchStatus := .waiting
  matchStart : Int
  nextEventId : Nat := 1
  totalKills : Nat := 0

/-- How the `double`s that leave the process are printed: a duration in nanoseconds, in seconds; the
average of some latencies, in milliseconds; and, for the monitoring, the sum of some latencies, in
seconds and with six digits behind the point.  The serializer of the responses prints a `double`
through a buffer of 64 characters. -/
structure Doubles where
  seconds : Int → Bytes
  averageMs : List Int → Nat → Bytes
  sumSeconds : List Int → Bytes
  length_averageMs_le : ∀ ds n, (averageMs ds n).length ≤ 64

namespace GameState

def mapMin : Int32 := 0
def mapMax : Int32 := 1000
def maxHealth : Int32 := 100
def attackDamage : Int32 := 25
def maxChatLen : Int32 := 256
def maxEvents : Nat := 1000

/-- `std::clamp`. -/
def clamp (v lo hi : Int32) : Int32 := if v < lo then lo else if hi < v then hi else v

/-- `std::max`. -/
def max (a b : Int32) : Int32 := if a < b then b else a

/-! ## Player operations -/

def alreadyInGame (playerId : Int32) : Bytes :=
  ascii "player_id " ++ toString playerId ++ ascii " already in game"

def notInGame (playerId : Int32) : Bytes :=
  ascii "player_id " ++ toString playerId ++ ascii " not in game"

/-- The clock is read for `joinedAt` and then, if this starts the match, for `m_matchStart`. -/
def addPlayer (playerId : Int32) (now : Nat → Int) (g : GameState) : Except Bytes GameState :=
  if playerId ∈ g.players then .error (alreadyInGame playerId)
  else
    let g := { g with players := g.players.insert playerId { playerId, joinedAt := now 0 } }
    if g.status = .waiting then .ok { g with status := .active, matchStart := now 1 } else .ok g

/-- The transition to `FINISHED` when the map has become empty. -/
def finishIfEmpty (g : GameState) : GameState :=
  if g.status = .active ∧ g.players.size = 0 then { g with status := .finished } else g

def removePlayer (playerId : Int32) (g : GameState) : Except Bytes (Int32 × GameState) :=
  match g.players.lookup playerId with
  | none => .error (notInGame playerId)
  | some p => .ok (p.score, finishIfEmpty { g with players := g.players.erase playerId })

/-- An assignment through the iterator that `find` returned. -/
def modifyPlayer (playerId : Int32) (f : PlayerState → PlayerState) (g : GameState) :
    Except Bytes GameState :=
  match g.players.lookup playerId with
  | none => .error (notInGame playerId)
  | some p => .ok { g with players := g.players.replace playerId (f p) }

def movePlayer (playerId x y : Int32) (g : GameState) : Except Bytes GameState :=
  modifyPlayer playerId
    (fun p => { p with x := clamp x mapMin mapMax, y := clamp y mapMin mapMax }) g

def attackPlayer (attackerId targetId : Int32) (g : GameState) :
    Except Bytes (AttackResult × GameState) :=
  if attackerId = targetId then .error (ascii "cannot attack yourself")
  else match g.players.lookup attackerId with
    | none => .error (ascii "attacker " ++ toString attackerId ++ ascii " not in game")
    | some attacker =>
      match g.players.lookup targetId with
      | none => .error (ascii "target " ++ toString targetId ++ ascii " not in game")
      | some target =>
        let target := { target with health := max 0 (target.health - attackDamage) }
        let eliminated := target.health = 0
        let attacker :=
          { attacker with score := attacker.score + if eliminated then 100 else 10 }
        let result := ⟨attackDamage, target.health, attacker.score, eliminated⟩
        if eliminated then
          let attacker := { attacker with kills := attacker.kills + 1 }
          .ok (result, finishIfEmpty { g with
            players := (g.players.replace attackerId attacker).erase targetId
            totalKills := g.totalKills + 1 })
        else
          .ok (result, { g with
            players := (g.players.replace attackerId attacker).replace targetId target })

def setScore (playerId score : Int32) (g : GameState) : Except Bytes GameState :=
  modifyPlayer playerId (fun p => { p with score }) g

/-! ### What an operation that succeeds has done -/

section Inversion

variable {g g' : GameState} {playerId : Int32}

theorem addPlayer_inv {now : Nat → Int} (h : g.addPlayer playerId now = .ok g') :
    playerId ∉ g.players ∧ g' = { g with
      players := g.players.insert playerId { playerId, joinedAt := now 0 }
      status := if g.status = .waiting then .active else g.status
      matchStart := if g.status = .waiting then now 1 else g.matchStart } := by
  unfold addPlayer at h
  split at h
  · cases h
  rename_i habsent
  refine ⟨habsent, ?_⟩
  simp only at h
  by_cases hstatus : g.status = .waiting
  · rw [if_pos hstatus] at h ⊢
    rw [if_pos hstatus]
    exact (Except.ok.inj h).symm
  · rw [if_neg hstatus] at h ⊢
    rw [if_neg hstatus]
    exact (Except.ok.inj h).symm

theorem removePlayer_inv {r : Int32 × GameState} (h : g.removePlayer playerId = .ok r) :
    ∃ p, g.players.lookup playerId = some p ∧
      r = (p.score, finishIfEmpty { g with players := g.players.erase playerId }) := by
  unfold removePlayer at h
  split at h
  · cases h
  · rename_i p hp
    exact ⟨p, hp, (Except.ok.inj h).symm⟩

theorem modifyPlayer_inv {f : PlayerState → PlayerState}
    (h : g.modifyPlayer playerId f = .ok g') :
    ∃ p, g.players.lookup playerId = some p ∧
      g' = { g with players := g.players.replace playerId (f p) } := by
  unfold modifyPlayer at h
  split at h
  · cases h
  · rename_i p hp
    exact ⟨p, hp, (Except.ok.inj h).symm⟩

end Inversion

/-! ### What an operation that fails says -/

/-- The texts with which the operations refuse.  There is one for each thing that can be in the way
of a call. -/
inductive Refusal : Bytes → Prop where
  | present (playerId : Int32) : Refusal (alreadyInGame playerId)
  | absent (playerId : Int32) : Refusal (notInGame playerId)
  | oneself : Refusal (ascii "cannot attack yourself")
  | noAttacker (playerId : Int32) :
      Refusal (ascii "attacker " ++ toString playerId ++ ascii " not in game")
  | noTarget (playerId : Int32) :
      Refusal (ascii "target " ++ toString playerId ++ ascii " not in game")

section Refusal

variable {g : GameState} {playerId : Int32} {err : Bytes}

theorem addPlayer_refusal {now : Nat → Int} (h : g.addPlayer playerId now = .error err) :
    Refusal err := by
  unfold addPlayer at h
  split at h
  · cases h
    exact .present playerId
  simp only at h
  split at h
  · cases h
  · cases h

theorem removePlayer_refusal (h : g.removePlayer playerId = .error err) : Refusal err := by
  unfold removePlayer at h
  split at h
  · cases h
    exact .absent playerId
  · cases h

theorem modifyPlayer_refusal {f : PlayerState → PlayerState}
    (h : g.modifyPlayer playerId f = .error err) : Refusal err := by
  unfold modifyPlayer at h
  split at h
  · cases h
    exact .absent playerId
  · cases h

theorem attackPlayer_refusal {attackerId targetId : Int32}
    (h : g.attackPlayer attackerId targetId = .error err) : Refusal err := by
  unfold attackPlayer at h
  split at h
  · cases h
    exact .oneself
  split at h
  · cases h
    exact .noAttacker attackerId
  split at h
  · cases h
    exact .noTarget targetId
  simp only at h
  split at h
  · cases h
  · cases h

end Refusal

/-! ## Queries -/

def hasPlayer (playerId : Int32) (g : GameState) : Bool := decide (playerId ∈ g.players)

def activePlayerCount (g : GameState) : Nat := g.players.size

def totalEvents (g : GameState) : Nat := g.nextEventId - 1

def matchStatusString (g : GameState) : Bytes :=
  match g.status with
  | .waiting => ascii "WAITING"
  | .active => ascii "ACTIVE"
  | .finished => ascii "FINISHED"

/-! ## The event log -/

/-- The first half of `recordEvent`: `m_nextEventId.fetch_add(1)`, outside the mutex. -/
def fetchAddEventId (g : GameState) : Nat × GameState :=
  (g.nextEventId, { g with nextEventId := g.nextEventId + 1 })

/-- The second half of `recordEvent`, under the mutex: append, and drop the oldest beyond the
cap. -/
def pushEvent (ev : GameEvent) (g : GameState) : GameState :=
  let events := g.events ++ [ev]
  { g with events := if maxEvents < events.length then events.tail else events }

def recentEvents (n : Nat) (g : GameState) : List GameEvent := g.events.drop (g.events.length - n)

/-! ## The snapshot -/

def playerJson (fp : Doubles) (now : Int) (p : PlayerState) : Json :=
  obj [("player_id", int p.playerId), ("x", int p.x), ("y", int p.y), ("health", int p.health),
    ("score", int p.score), ("kills", int p.kills),
    ("session_s", .float (fp.seconds (now - p.joinedAt)))]

def eventJson (ev : GameEvent) : Json :=
  obj [("event_id", .integer ev.eventId), ("player_id", int ev.playerId),
    ("event_type", .string ev.eventType), ("data", .string ev.data)]

/-- `snapshot`: the clock is read once for each player and once more at the end. -/
def snapshot (fp : Doubles) (now : Nat → Int) (g : GameState) : Json :=
  obj [("match_status", .string g.matchStatusString),
    ("elapsed_seconds", .float (fp.seconds (now g.players.size - g.matchStart))),
    ("player_count", int (Json.toInt32 g.players.size)),
    ("total_kills", .integer g.totalKills),
    ("total_events", .integer g.totalEvents),
    ("players", .array (g.players.entries.mapIdx fun i e => playerJson fp (now i) e.2)),
    ("recent_events", .array ((g.recentEvents 5).map eventJson))]

end GameState
end MultiPlayerGame
