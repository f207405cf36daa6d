import MultiPlayerGame.Server.RequestHandler

/-!
# The rest of the cache

What `CacheManager` offers beyond the calls that the handlers make: sessions of any shape and
lifetime, and reading a position back.

The two queries are there twice.  `getPlayerSession` and `getPlayerPosition` are about an enabled
cache and return what was found; `getPlayerSessionInto` and `getPlayerPositionInto` are the whole
methods, which return a `bool` and write what was found to the variables of the caller.

A handler leaves open what Redis answers.  `Call.execAnswering` closes it: a Redis that executes
every command, and answers a `GET` with the value that it holds.

## Outputs that are written too early

A method that reports failure should leave its outputs alone.  `getPlayerPosition` converts its two
numbers one after the other and writes the first one in between, which can be seen if the second
conversion throws.  A model that returns a result or nothing could not show this.  So the whole
methods return, next to what they return or throw, the values of the output variables afterwards.
That the short forms find the same is `getPlayerSessionInto_found` and
`getPlayerPositionInto_found`.
-/

namespace MultiPlayerGame

open Bytes (ascii)
open MetricsRegistry (increment)

namespace CacheManager

/-- `setPlayerSession` for any session and any `ttlSec`.  The exception is that of `dump`; a
`ttlSec` that is not positive is left out of the command. -/
def setPlayerSessionFor (playerId : Int32) (sessionData : Json) (ttlSec : Int32) :
    Handler (Except Unit Bool) :=
  match sessionData.dump with
  | none => return .error ()
  | some text => do
    let ok ← invoke (.redis (.set (sessionKey playerId) text ttlSec.toInt.toNat))
    return .ok ok

/-- The position in a reply, if there is one: what stands before the first comma and behind it.  The
exceptions are those of the Redis client and of `std::stoi`. -/
def readPosition : Except Unit (Option Bytes) → Handler (Except Unit (Option (Int32 × Int32)))
  | .error _ => return .error ()
  | .ok value =>
    match value.filter fun val => 0x2C ∈ val with
    | some val =>
      match stoi (val.takeWhile (· ≠ 0x2C)), stoi (val.dropWhile (· ≠ 0x2C)).tail with
      | some x, some y => do
        increment .redisCacheHits
        return .ok (some (x, y))
      | _, _ => return .error ()
    | none => do
      increment .redisCacheMisses
      return .ok none

def getPlayerPosition (playerId : Int32) : Handler (Except Unit (Option (Int32 × Int32))) := do
  let reply ← invoke (.redisGet (positionKey playerId))
  readPosition reply

/-! ### The output parameters -/

/-- The end of a query that finds nothing. -/
def miss {α : Type} (outputs : α) : Handler (Except Unit Bool × α) := do
  increment .redisCacheMisses
  return (.ok false, outputs)

/-- The end of a query that has written its outputs. -/
def hit {α : Type} (outputs : α) : Handler (Except Unit Bool × α) := do
  increment .redisCacheHits
  return (.ok true, outputs)

/-- What `getPlayerSession` does with a reply.  The output is assigned by `json::parse`, so it
changes only if that succeeds. -/
def readSessionInto (outSessionData : Json) :
    Except Unit (Option Bytes) → Handler (Except Unit Bool × Json)
  | .error _ => return (.error (), outSessionData)
  | .ok none => miss outSessionData
  | .ok (some rawJson) =>
    match Parser.parse rawJson with
    | some session => hit session
    | none => miss outSessionData

/-- `getPlayerSession` with its output: what it returns, and the output afterwards.  `enabled` is
`m_enabled && m_pool`. -/
def getPlayerSessionInto (enabled : Bool) (playerId : Int32) (outSessionData : Json) :
    Handler (Except Unit Bool × Json) :=
  if !enabled then miss outSessionData
  else do
    let reply ← invoke (.redisGet (sessionKey playerId))
    readSessionInto outSessionData reply

/-- What `getPlayerPosition` does with a reply.  The first output is written before the second
number is converted. -/
def readPositionInto (outX outY : Int32) :
    Except Unit (Option Bytes) → Handler (Except Unit Bool × Int32 × Int32)
  | .error _ => return (.error (), outX, outY)
  | .ok none => miss (outX, outY)
  | .ok (some val) =>
    if 0x2C ∈ val then
      match stoi (val.takeWhile (· ≠ 0x2C)) with
      | none => return (.error (), outX, outY)
      | some x =>
        match stoi (val.dropWhile (· ≠ 0x2C)).tail with
        | none => return (.error (), x, outY)
        | some y => hit (x, y)
    else miss (outX, outY)

/-- `getPlayerPosition` with its outputs. -/
def getPlayerPositionInto (enabled : Bool) (playerId outX outY : Int32) :
    Handler (Except Unit Bool × Int32 × Int32) :=
  if !enabled then miss (outX, outY)
  else do
    let reply ← invoke (.redisGet (positionKey playerId))
    readPositionInto outX outY reply

/-- What a query has found.  It puts the two descriptions of a query side by side. -/
def found {α : Type} (r : Except Unit Bool × α) : Except Unit (Option α) :=
  r.1.map fun ok => if ok then some r.2 else none

/-- **What the whole `getPlayerSession` finds.**  The output parameter holds the session exactly if
the method returns `true`. -/
theorem getPlayerSessionInto_found (playerId : Int32) (outSessionData : Json) :
    (getPlayerSessionInto true playerId outSessionData >>= fun r => pure (found r)) =
      getPlayerSession playerId := by
  refine congrArg (Program.call _) (funext fun reply => ?_)
  show readSessionInto outSessionData reply >>= _ = readSession reply
  rcases reply with _ | _ | rawJson
  · rfl
  · rfl
  · rw [readSession, Option.bind_some, readSessionInto]
    cases Parser.parse rawJson with
    | none => rfl
    | some session => rfl

/-- **What the whole `getPlayerPosition` finds.**  The two outputs hold the position exactly if the
method returns `true`. -/
theorem getPlayerPositionInto_found (playerId outX outY : Int32) :
    (getPlayerPositionInto true playerId outX outY >>= fun r => pure (found r)) =
      getPlayerPosition playerId := by
  refine congrArg (Program.call _) (funext fun reply => ?_)
  show readPositionInto outX outY reply >>= _ = readPosition reply
  rcases reply with _ | _ | val
  · rfl
  · rfl
  rw [readPosition, Option.filter_some, readPositionInto]
  by_cases hcomma : 0x2C ∈ val
  swap
  · rw [if_neg hcomma, if_neg (by simpa using hcomma)]
    rfl
  rw [if_pos hcomma, if_pos (by simpa using hcomma)]
  rcases hx : stoi (val.takeWhile (· ≠ 0x2C)) with _ | x
  · simp only [hx]
    rfl
  rcases hy : stoi (val.dropWhile (· ≠ 0x2C)).tail with _ | y
  · simp only [hx, hy]
    rfl
  · simp only [hx, hy]
    rfl

end CacheManager

/-- Steps over a Redis that always answers. -/
def Call.execAnswering (fp : Doubles) (c : Call) (w : World) : c.Ans × World :=
  match c with
  | .redis command => (true, { w with keys := command.apply w.keys })
  | .redisGet key => (.ok (w.keys.lookup key), w)
  | c => c.exec fp {} w

namespace CacheManager

variable (fp : Doubles)

/-- The text that `setPlayerPosition` stores. -/
def positionText (p : Int32 × Int32) : Bytes := toString p.1 ++ ascii "," ++ toString p.2

/-- The handlers' `setPlayerSession` is the general one with the default lifetime. -/
theorem setPlayerSessionFor_eq {playerId : Int32} {sessionData : Json}
    (h : sessionData.dump.isSome = true) :
    setPlayerSessionFor playerId sessionData 300 =
      (setPlayerSession playerId sessionData >>= fun ok => pure (.ok ok)) := by
  have hutf8 : sessionData.utf8 = true := by
    by_contra hno
    rw [Json.dump, if_neg hno] at h
    cases h
  rw [setPlayerSessionFor, Json.dump_of_utf8 hutf8]
  rfl

theorem comma_notMem_toString (n : Int32) : 0x2C ∉ toString n := by
  have hdigits : ∀ m, 0x2C ∉ Bytes.digits m := fun m hmem =>
    absurd (Bytes.isDigit_of_mem_digits hmem) (by decide)
  unfold toString Bytes.decimal
  split
  · exact hdigits _
  · exact List.not_mem_cons_of_ne_of_not_mem (by decide) (hdigits _)

/-- **A position reads back.**  Neither numeral has a comma in it, so the first comma is the one
between them. -/
theorem readPosition_positionText (p : Int32 × Int32) :
    readPosition (.ok (some (positionText p))) =
      (increment .redisCacheHits >>= fun _ => pure (.ok (some p))) := by
  have hx : ∀ b ∈ toString p.1, decide (b ≠ 0x2C) = true := fun b hb =>
    decide_eq_true fun heq => comma_notMem_toString p.1 (heq ▸ hb)
  have hcomma : ascii "," = [0x2C] := by decide
  have hmem : 0x2C ∈ positionText p := by simp [positionText, hcomma]
  have htake : (positionText p).takeWhile (· ≠ 0x2C) = toString p.1 := by
    rw [positionText, List.append_assoc, List.takeWhile_append_of_pos hx, hcomma]
    simp
  have hdrop : (positionText p).dropWhile (· ≠ 0x2C) = 0x2C :: toString p.2 := by
    rw [positionText, List.append_assoc, List.dropWhile_append_of_pos hx, hcomma]
    rfl
  have hback : ∀ n, stoi (toString n) = some n := stoi_toInt
  unfold readPosition
  simp only [Option.filter_some, hmem, decide_true, if_true, htake, hdrop, List.tail_cons, hback]

/-- What `getPlayerPosition` returns. -/
theorem getPlayerPosition_run (playerId : Int32) (w : World) {place : Option (Int32 × Int32)}
    (h : w.keys.lookup (positionKey playerId) = place.map positionText) :
    ((getPlayerPosition playerId).run (Call.execAnswering fp) w).1 = .ok place := by
  change ((readPosition (.ok (w.keys.lookup (positionKey playerId)))).run _ w).1 = _
  rw [h]
  cases place with
  | none => rfl
  | some p =>
    rw [Option.map_some, readPosition_positionText]
    rfl

/-- What `getPlayerSession` returns, of a session that `parse` restores. -/
theorem getPlayerSession_run (playerId : Int32) (w : World) {session : Option Json}
    (hparse : ∀ j ∈ session, ∀ text, j.dump = some text → Parser.parse text = some j)
    (hdump : ∀ j ∈ session, j.dump.isSome = true)
    (h : w.keys.lookup (sessionKey playerId) = session.bind Json.dump) :
    ((getPlayerSession playerId).run (Call.execAnswering fp) w).1 = .ok session := by
  change ((readSession (.ok (w.keys.lookup (sessionKey playerId)))).run _ w).1 = _
  rw [h]
  cases session with
  | none => rfl
  | some j =>
    obtain ⟨text, htext⟩ := Option.isSome_iff_exists.mp (hdump j rfl)
    rw [Option.bind_some, htext]
    unfold readSession
    simp only [Option.bind_some, hparse j rfl text htext]
    rfl

end CacheManager
end MultiPlayerGame
