import MultiPlayerGame.Server.CacheManager
import MultiPlayerGame.Server.Deeds
import MultiPlayerGame.Server.RedisCommands

/-!
# Does every query of the cache return?

A query of the cache returns whether it has found something, counts one hit or one miss, and leaves
its outputs alone at a miss: `Kept`.  What stands against it is `std::stoi`, which throws if there
is no number that fits an `int`.

It is called at up to three places.  The client converts the length of a string, outside every
`try`, so a garbled length lets the exception through (`RedisPool.Garbled`).  `getPlayerPosition`
converts two numbers, outside a `try` too, and between the two it has written its first output.
`kept_iff` says that nothing else goes wrong.  What Redis sends is described by its bytes: `Carries`
for a reply with a value in it.

## Why the condition is one on bytes

Whether a query does what it should depends on whether an exception gets out of it, and that depends
on what `std::stoi` is given.  So the condition follows the bytes of the reply: through
`readBulkString`, which converts the length, and for a position through the comma into the two
numbers.  `get_iff` says exactly which replies bring a value, and with it the three outcomes of a
query are exhaustive: a value, none, or an exception of the client.

A reply that brings nothing is a miss and leaves the outputs alone.  A value of a session that does
not parse is a miss too, for `json::parse` is called inside a `try`.  For a position the conversion
of the two numbers is outside of any, which is the slip.
-/

namespace MultiPlayerGame
namespace CacheQueries

open Bytes (ascii)
open RedisConnection (takeBytes takeLine received wire)
open MetricsRegistry (increment)
open CacheManager (sessionKey positionKey)

/-- A query with output parameters does what it should: no exception, one hit or one miss, and no
change of the outputs at a miss. -/
def Kept {α : Type} (outputs : α) (metrics : MetricsRegistry)
    (r : (Except Unit Bool × α) × World) : Prop :=
  ∃ ok, r.1.1 = .ok ok ∧
    r.2.metrics = metrics.fetchAdd (if ok then .redisCacheHits else .redisCacheMisses) ∧
    (ok = false → r.1.2 = outputs)

/-- There is a comma, and one of the two sides of the first comma is no number. -/
def NoPosition (val : Bytes) : Prop :=
  0x2C ∈ val ∧ (stoi (val.takeWhile (· ≠ 0x2C)) = none ∨
    stoi (val.dropWhile (· ≠ 0x2C)).tail = none)

/-- A line with a length, as many bytes, and two more. -/
def Bulk (val : Bytes) (arrivals : List (Option UInt8)) : Prop :=
  ∃ (line crlf : Bytes) (len : Int32) (rest : List (Option UInt8)),
    arrivals = line.map some ++ some 0x0D :: some 0x0A ::
        (val.map some ++ (crlf.map some ++ rest)) ∧
      0x0D ∉ line ∧ stoi line = some len ∧ len.toInt = val.length ∧ crlf.length = 2

/-- The command `GET key` is sent, and the reply is a string. -/
def Carries (pool : RedisPool) (net : RedisConnection) (key val : Bytes) : Prop :=
  pool.Connects net ∧ net.sends.head? = some ((wire [ascii "GET", key]).length : Int) ∧
    ∃ rest, net.arrivals = some 0x24 :: rest ∧ Bulk val rest

/-! ## What a `GET` brings -/

theorem of_takeBytes {n : Nat} {bs : Bytes} {arrivals rest : List (Option UInt8)}
    (h : takeBytes n arrivals = (some bs, rest)) :
    arrivals = bs.map some ++ rest ∧ bs.length = n := by
  induction n generalizing bs arrivals with
  | zero =>
    cases h
    exact ⟨rfl, rfl⟩
  | succ n ih =>
    rcases arrivals with _ | ⟨_ | b, arrivals⟩
    · cases h
    · cases h
    rw [takeBytes] at h
    rcases htail : takeBytes n arrivals with ⟨_ | bs', rest'⟩
    · rw [htail] at h
      cases h
    · rw [htail] at h
      cases h
      obtain ⟨harrivals, hlength⟩ := ih htail
      exact ⟨congrArg (some b :: ·) harrivals, congrArg (· + 1) hlength⟩

theorem of_received {α : Type} {r : Option α × List (Option UInt8)} {c c' : RedisConnection}
    {a : α} (h : received r c = (some a, c')) : r = (some a, c'.arrivals) := by
  obtain ⟨_ | _, _⟩ := r
  · cases h
  · cases h
    rfl

/-- **`readBulkString` returns a string if it finds one, and in no other case.**  The line has to be
a number that is not negative, and as many bytes and two more have to arrive. -/
theorem readBulkString_iff (c : RedisConnection) (val : Bytes) :
    c.readBulkString.1 = .ok (some val) ↔ Bulk val c.arrivals := by
  constructor
  · intro h
    unfold RedisConnection.readBulkString at h
    split at h
    · cases h
    rename_i line c₁ hread
    split at h
    · cases h
    rename_i len hlen
    split at h
    · cases h
    rename_i hneg
    split at h
    · cases h
    rename_i out c₂ hout
    split at h
    · cases h
    rename_i crlf c₃ hcrlf
    cases h
    obtain ⟨l, hl, hcr, harrivals⟩ := RedisConnection.line_of_takeLine (of_received hread)
    obtain ⟨hval, hlength⟩ := of_takeBytes (of_received hout)
    obtain ⟨hbehind, htwo⟩ := of_takeBytes (of_received hcrlf)
    rw [List.nil_append] at hl
    rw [hval, hbehind] at harrivals
    refine ⟨line, crlf, len, c₃.arrivals, hl ▸ harrivals, hl ▸ hcr, hlen, ?_, htwo⟩
    have hpos : 0 ≤ len.toInt := by
      rw [Int32.lt_iff_toInt_lt] at hneg
      simpa using hneg
    rw [hlength, Int.toNat_of_nonneg hpos]
  · rintro ⟨line, crlf, len, rest, harrivals, hcr, hlen, hlength, htwo⟩
    have hread : c.readLine = (some line, { c with
        arrivals := val.map some ++ (crlf.map some ++ rest) }) := by
      rw [RedisConnection.readLine, harrivals, RedisConnection.takeLine_line hcr]
      rfl
    have hneg : ¬ len < 0 := by
      rw [Int32.lt_iff_toInt_lt, hlength]
      simp
    have hcount : len.toInt.toNat = val.length := by rw [hlength, Int.toNat_natCast]
    rw [RedisConnection.readBulkString, hread]
    simp only [hlen, if_neg hneg, hcount, RedisConnection.takeBytes_append, received, ← htwo]

/-- **A `GET` returns a value if the reply has one in it, and in no other case.** -/
theorem get_iff (pool : RedisPool) (net : RedisConnection) (key val : Bytes) :
    (pool.withConnection (RedisConnection.get key) net).1 = .ok (some val) ↔
      Carries pool net key val := by
  obtain ⟨hsends₀, harrivals₀⟩ := pool.acquired_fields net
  obtain ⟨hsends, harrivals⟩ := (pool.acquired net).connect_fields
  rw [RedisPool.withConnection_fst, Carries, ← RedisPool.connect_acquired, ← hsends₀, ← harrivals₀]
  unfold RedisConnection.get RedisConnection.sendCommand
  rcases hconnect : (pool.acquired net).connect with ⟨_ | _, c⟩
  · simp
  rw [hconnect] at hsends harrivals
  simp only at hsends harrivals
  simp only [hsends, true_and]
  by_cases hsent : (pool.acquired net).sends.head? =
      some ((wire [ascii "GET", key]).length : Int)
  swap
  · simp [hsent]
  rw [if_pos hsent]
  simp only [hsent, true_and, harrivals]
  -- the first byte
  rcases (pool.acquired net).arrivals with _ | ⟨_ | b, rest⟩
  · simp [takeBytes, received]
  · simp [takeBytes, received]
  have hdollar : ascii "$" = [0x24] := by decide
  simp only [takeBytes, received, hdollar]
  by_cases hb : b = 0x24
  · subst hb
    rw [if_pos rfl, readBulkString_iff]
    simp
  · rw [if_neg (by simpa using hb)]
    simp [hb]

/-! ## The two queries -/

section Queries

variable (fp : Doubles) (e : Env) (w : World)

/-- A query alone.  Only its `GET` looks at `e`. -/
def ask {α : Type} (query : Handler α) : α × World := query.run (fun c => c.exec fp e) w

/-- The reply of Redis, -/
def reply (key : Bytes) : Except Unit (Option Bytes) :=
  (w.pool.withConnection (RedisConnection.get key) e.net).1

/-- and the state after it. -/
def replied (key : Bytes) : World :=
  { w with pool := (w.pool.withConnection (RedisConnection.get key) e.net).2 }

variable {fp e w}

theorem kept_miss {α : Type} (outputs : α) :
    Kept outputs w.metrics (ask fp e w (CacheManager.miss outputs)) :=
  ⟨false, rfl, rfl, fun _ => rfl⟩

theorem kept_hit {α : Type} (outputs written : α) :
    Kept outputs w.metrics (ask fp e w (CacheManager.hit written)) :=
  ⟨true, rfl, rfl, fun hno => by cases hno⟩

theorem not_kept_throw {α : Type} (outputs written : α) :
    ¬ Kept outputs w.metrics (ask fp e w (pure (.error (), written))) := by
  rintro ⟨ok, hok, -⟩
  cases hok

/-- Reading a session does what it should unless the client has thrown. -/
theorem kept_readSessionInto {out : Json} {r : Except Unit (Option Bytes)} :
    Kept out w.metrics (ask fp e w (CacheManager.readSessionInto out r)) ↔ r ≠ .error () := by
  rcases r with _ | _ | rawJson
  · exact iff_of_false (not_kept_throw out out) fun hno => hno rfl
  · exact iff_of_true (kept_miss out) fun hno => by cases hno
  refine iff_of_true ?_ fun hno => by cases hno
  rw [CacheManager.readSessionInto]
  cases Parser.parse rawJson with
  | none => exact kept_miss out
  | some session => exact kept_hit out session

/-- Reading a position does, unless the client has thrown or the value has no position in it. -/
theorem kept_readPositionInto {outX outY : Int32} {r : Except Unit (Option Bytes)} :
    Kept (outX, outY) w.metrics (ask fp e w (CacheManager.readPositionInto outX outY r)) ↔
      r ≠ .error () ∧ ∀ val, r = .ok (some val) → ¬ NoPosition val := by
  rcases r with _ | _ | val
  · exact iff_of_false (not_kept_throw _ _) fun hno => hno.1 rfl
  · refine iff_of_true (kept_miss _) ⟨?_, ?_⟩
    · intro hno
      cases hno
    · intro val hno
      cases hno
  have hvalue : (Except.ok (some val) ≠ (.error () : Except Unit (Option Bytes)) ∧
      ∀ val', (Except.ok (some val) : Except Unit (Option Bytes)) = .ok (some val') →
        ¬ NoPosition val') ↔ ¬ NoPosition val := by
    constructor
    · intro h
      exact h.2 val rfl
    · intro h
      refine ⟨?_, ?_⟩
      · intro hno
        cases hno
      · intro val' hval
        cases hval
        exact h
  rw [hvalue, NoPosition, CacheManager.readPositionInto]
  by_cases hcomma : 0x2C ∈ val
  swap
  · rw [if_neg hcomma]
    exact iff_of_true (kept_miss _) fun hno => hcomma hno.1
  rw [if_pos hcomma]
  rcases stoi (val.takeWhile (· ≠ 0x2C)) with _ | x
  · exact iff_of_false (not_kept_throw _ _) fun hno => hno ⟨hcomma, Or.inl rfl⟩
  rcases hy : stoi (val.dropWhile (· ≠ 0x2C)).tail with _ | y
  · simp only [hy]
    exact iff_of_false (not_kept_throw _ _) fun hno => hno ⟨hcomma, Or.inr trivial⟩
  · simp only [hy]
    exact iff_of_true (kept_hit _ _) (by simp)

variable (fp e w)

/-- **A query of the session does what it should if and only if the cache is off or the reply has no
garbled length; a query of a position if, besides, the reply does not carry a value with a comma
and no number at one of its sides.** -/
theorem kept_iff (enabled : Bool) (playerId : Int32) :
    (∀ out, Kept out w.metrics
        (ask fp e w (CacheManager.getPlayerSessionInto enabled playerId out)) ↔
      ¬ (enabled = true ∧ w.pool.Garbled e.net (sessionKey playerId))) ∧
    ∀ outX outY, Kept (outX, outY) w.metrics
        (ask fp e w (CacheManager.getPlayerPositionInto enabled playerId outX outY)) ↔
      ¬ (enabled = true ∧ (w.pool.Garbled e.net (positionKey playerId) ∨
        ∃ val, Carries w.pool e.net (positionKey playerId) val ∧ NoPosition val)) := by
  cases enabled with
  | false =>
    refine ⟨fun out => iff_of_true (kept_miss out) ?_, fun outX outY =>
      iff_of_true (kept_miss (outX, outY)) ?_⟩
    · rintro ⟨hno, -⟩
      cases hno
    · rintro ⟨hno, -⟩
      cases hno
  | true =>
    refine ⟨fun out => ?_, fun outX outY => ?_⟩
    · show Kept out (replied e w (sessionKey playerId)).metrics (ask fp e (replied e w _)
        (CacheManager.readSessionInto out (reply e w (sessionKey playerId)))) ↔ _
      rw [kept_readSessionInto, reply, ne_eq, RedisPool.get_error_iff]
      simp
    · show Kept (outX, outY) (replied e w (positionKey playerId)).metrics (ask fp e (replied e w _)
        (CacheManager.readPositionInto outX outY (reply e w (positionKey playerId)))) ↔ _
      rw [kept_readPositionInto, reply, ne_eq, RedisPool.get_error_iff]
      simp only [get_iff, true_and, not_or, not_exists, not_and]

end Queries

/-- A server with a connection to Redis, -/
def connected : World := { World.started with pool := ⟨[true]⟩ }

/-- and a Redis that holds `1,b` for the position of player 7. -/
def bad : Env where
  net :=
    { sends := [((wire [ascii "GET", positionKey 7]).length : Int)]
      arrivals := (ascii "$3\r\n1,b\r\n").map some }

/-- **The query throws**, having written its first output and counted nothing.  The value has a
comma with a number in front of it and none behind it. -/
theorem getPlayerPosition_throws :
    let r := ask .zero bad connected (CacheManager.getPlayerPositionInto true 7 0 0)
    r.1 = (.error (), 1, 0) ∧ r.2.metrics.counters .redisCacheHits = 0 ∧
      r.2.metrics.counters .redisCacheMisses = 0 ∧ ¬ Kept (0, 0) connected.metrics r := by
  have hthrows : (ask .zero bad connected (CacheManager.getPlayerPositionInto true 7 0 0)).1 =
      (.error (), 1, 0) := by
    decide +kernel
  refine ⟨hthrows, by decide +kernel, by decide +kernel, ?_⟩
  rintro ⟨ok, hok, -⟩
  rw [hthrows] at hok
  cases hok

end CacheQueries
end MultiPlayerGame
