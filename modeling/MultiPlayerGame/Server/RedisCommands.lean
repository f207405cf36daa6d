import MultiPlayerGame.Library.KeyedMap
import MultiPlayerGame.Server.RedisClient

/-!
# The commands of the Redis client

The commands of `RedisConnection` that the cache does not use, and all seven of them as one type.
Each sends its arguments and, if that went well, reads a reply: `Request.perform_eq`.

Underneath is what the readers do with the bytes of a line and of a bulk string: `readLine_line`,
`readBulkString_bulk`, `readBulkString_null`.  All end in a `rest` that is left alone.

## Readers and rests

A reader takes what it wants from the front of the arrivals and leaves the others.  That `rest` is
what everything else depends on, since the connection goes back to the pool with it.  So no lemma
here is about a reply alone: the arrivals are the bytes of the reply in front of any rest, and the
result says that exactly the rest is left.

How the stream is cut into pieces is not input.  A loop of `recv`s that asks for the missing bytes
gets the same bytes for any sizes of the pieces, which is `RecvLoop.takeBytes_eq`, and the byte by
byte reader `takeBytes` stands for all of them.
-/

namespace MultiPlayerGame
namespace RedisConnection

open Bytes (ascii digits decimal)

def ping (c : RedisConnection) : Bool × RedisConnection :=
  match c.sendCommand [ascii "PING"] with
  | (false, c) => (false, c)
  | (true, c) =>
    match c.readLine with
    | (none, c) => (false, c)
    | (some line, c) => (line = ascii "+PONG" || line = ascii "PONG", c)

def hset (key field value : Bytes) (c : RedisConnection) : Bool × RedisConnection :=
  match c.sendCommand [ascii "HSET", key, field, value] with
  | (false, c) => (false, c)
  | (true, c) => (c.readLine.1.isSome, c.readLine.2)

def hget (key field : Bytes) (c : RedisConnection) :
    Except Unit (Option Bytes) × RedisConnection :=
  match c.sendCommand [ascii "HGET", key, field] with
  | (false, c) => (.ok none, c)
  | (true, c) =>
    match received (takeBytes 1 c.arrivals) c with
    | (none, c) => (.ok none, c)
    | (some type, c) =>
      if type = ascii "$" then c.readBulkString
      else (.ok none, c.readLine.2)

/-- A type byte, which is not looked at, and a string.  This is the one `recv` after whose failure
the connection is kept. -/
def readElement (c : RedisConnection) : Except Unit (Option Bytes) × RedisConnection :=
  match takeBytes 1 c.arrivals with
  | (none, rest) => (.ok none, { c with arrivals := rest })
  | (some _, rest) => { c with arrivals := rest }.readBulkString

/-- The loop of `hgetall`, with the number of pairs to come. -/
def readPairs : Nat → KeyedMap Bytes Bytes → RedisConnection →
    Except Unit (Bool × KeyedMap Bytes Bytes) × RedisConnection
  | 0, outMap, c => (.ok (true, outMap), c)
  | n + 1, outMap, c =>
    match c.readElement with
    | (.error _, c) => (.error (), c)
    | (.ok none, c) => (.ok (false, outMap), c)
    | (.ok (some k), c) =>
      match c.readElement with
      | (.error _, c) => (.error (), c)
      | (.ok none, c) => (.ok (false, outMap), c)
      | (.ok (some v), c) => readPairs n (outMap.insert k v) c

def hgetall (key : Bytes) (c : RedisConnection) :
    Except Unit (Bool × KeyedMap Bytes Bytes) × RedisConnection :=
  match c.sendCommand [ascii "HGETALL", key] with
  | (false, c) => (.ok (false, ∅), c)
  | (true, c) =>
    match received (takeBytes 1 c.arrivals) c with
    | (none, c) => (.ok (false, ∅), c)
    | (some type, c) =>
      if type ≠ ascii "*" then (.ok (false, ∅), c.readLine.2)
      else match c.readLine with
        | (none, c) => (.ok (false, ∅), c)
        | (some countStr, c) =>
          match stoi countStr with
          | none => (.error (), c)
          | some count =>
            if count ≤ 0 then (.ok (true, ∅), c) else readPairs ((count.toInt.toNat + 1) / 2) ∅ c

/-! ## What the readers take -/

section Readers

variable {c : RedisConnection} {rest : List (Option UInt8)}

theorem takeBytes_append (bs : Bytes) (rest : List (Option UInt8)) :
    takeBytes bs.length (bs.map some ++ rest) = (some bs, rest) := by
  induction bs with
  | nil => rfl
  | cons b bs ih =>
    rw [List.length_cons, List.map_cons, List.cons_append, takeBytes, ih]

/-- The loop of `readBulkString`, with the pieces that its `recv`s return: never nothing, and never
more than is missing. -/
inductive RecvLoop : Nat → List (Option UInt8) → Option Bytes → List (Option UInt8) → Prop where
  | full (rest : List (Option UInt8)) : RecvLoop 0 rest (some []) rest
  | closed (n : Nat) : RecvLoop (n + 1) [] none []
  | failed (n : Nat) (rest : List (Option UInt8)) : RecvLoop (n + 1) (none :: rest) none rest
  | piece {n : Nat} {arrivals rest : List (Option UInt8)} {out : Option Bytes} (bs : Bytes)
      (nonempty : bs ≠ []) (more : RecvLoop n arrivals out rest) :
      RecvLoop (bs.length + n) (bs.map some ++ arrivals) (out.map (bs ++ ·)) rest

/-- **However the stream is cut**, the loop takes the next bytes.  By induction on the pieces: each
is a part of what is missing, and the next `recv` asks for the rest. -/
theorem RecvLoop.takeBytes_eq {n : Nat} {arrivals rest : List (Option UInt8)} {out : Option Bytes}
    (h : RecvLoop n arrivals out rest) : takeBytes n arrivals = (out, rest) := by
  induction h with
  | full => rfl
  | closed => rfl
  | failed => rfl
  | @piece n arrivals rest out bs _ _ ih =>
    clear * - ih
    induction bs with
    | nil =>
      rw [List.length_nil, Nat.zero_add, List.map_nil, List.nil_append, ih]
      cases out with
      | none => rfl
      | some => rfl
    | cons b bs ihbs =>
      rw [List.length_cons, Nat.succ_add, List.map_cons, List.cons_append, takeBytes, ihbs]
      cases out with
      | none => rfl
      | some => rfl

theorem readLine_line {line : Bytes} (hline : 0x0D ∉ line)
    (h : c.arrivals = (line ++ ascii "\r\n").map some ++ rest) :
    c.readLine = (some line, { c with arrivals := rest }) := by
  have hcrlf : ascii "\r\n" = [0x0D, 0x0A] := by decide
  have harrivals : c.arrivals = line.map some ++ some 0x0D :: some 0x0A :: rest := by
    rw [h, hcrlf, List.map_append, List.append_assoc]
    rfl
  rw [readLine, harrivals, takeLine_line hline]
  rfl

/-- A bulk string behind its type byte. -/
def bulkTail (s : Bytes) : Bytes := digits s.length ++ ascii "\r\n" ++ s ++ ascii "\r\n"

theorem cr_notMem_digits (n : Nat) : 0x0D ∉ digits n := fun hmem =>
  absurd (Bytes.isDigit_of_mem_digits hmem) (by decide)

theorem stoi_digits {n : Nat} (hn : n < 2 ^ 31) : stoi (digits n) = some (Int32.ofInt n) := by
  have h := stoi_decimal (Int.ofNat n)
  rwa [if_neg (by simp only [Int.ofNat_eq_natCast]; omega)] at h

theorem toInt_ofInt {n : Nat} (hn : n < 2 ^ 31) : (Int32.ofInt n).toInt = n :=
  Int32.toInt_ofInt_of_le (by omega) (by omega)

/-- **A bulk string is read to its end.**  Its length is read from the line, and as many bytes and
the line break behind them are taken. -/
theorem readBulkString_bulk {s : Bytes} (hs : s.length < 2 ^ 31)
    (h : c.arrivals = (bulkTail s).map some ++ rest) :
    c.readBulkString = (.ok (some s), { c with arrivals := rest }) := by
  have hlen := toInt_ofInt hs
  have hnonneg : ¬ Int32.ofInt s.length < 0 := by
    rw [Int32.lt_iff_toInt_lt, hlen]
    simp
  have hline : c.readLine =
      (some (digits s.length), { c with arrivals := (s ++ ascii "\r\n").map some ++ rest }) :=
    readLine_line (cr_notMem_digits s.length) (by rw [h, bulkTail]; simp)
  have htwo : (ascii "\r\n").length = 2 := by decide
  have hcrlf := takeBytes_append (ascii "\r\n") rest
  rw [htwo] at hcrlf
  rw [readBulkString, hline]
  simp only [stoi_digits hs, hnonneg, if_false, hlen, Int.toNat_natCast, List.map_append,
    List.append_assoc, takeBytes_append, received, hcrlf]

/-- A negative length ends the reading. -/
theorem readBulkString_null (h : c.arrivals = (ascii "-1\r\n").map some ++ rest) :
    c.readBulkString = (.ok none, { c with arrivals := rest }) := by
  have hline : c.readLine = (some (ascii "-1"), { c with arrivals := rest }) :=
    readLine_line (by decide) h
  have hstoi : stoi (ascii "-1") = some (-1) := by decide
  have hneg : (-1 : Int32) < 0 := by decide
  rw [readBulkString, hline]
  simp only [hstoi, hneg, if_true]

end Readers

end RedisConnection

/-! ## All of them -/

namespace Redis

open Bytes (ascii digits)
open RedisConnection (received takeBytes takeLine wire)

/-- A command. -/
inductive Request where
  | ping
  | set (key value : Bytes) (expireSeconds : Nat)
  | get (key : Bytes)
  | del (key : Bytes)
  | hset (key field value : Bytes)
  | hget (key field : Bytes)
  | hgetall (key : Bytes)
  deriving DecidableEq, Repr

/-- What a command returns, with its output argument if there is one. -/
inductive Answer where
  | flag (ok : Bool)
  | value (out : Except Unit (Option Bytes))
  | table (out : Except Unit (Bool × KeyedMap Bytes Bytes))

namespace Request

/-- The strings that are sent. -/
def args : Request → List Bytes
  | ping => [ascii "PING"]
  | set key value expireSeconds => [ascii "SET", key, value] ++
    if 0 < expireSeconds then [ascii "EX", digits expireSeconds] else []
  | get key => [ascii "GET", key]
  | del key => [ascii "DEL", key]
  | hset key field value => [ascii "HSET", key, field, value]
  | hget key field => [ascii "HGET", key, field]
  | hgetall key => [ascii "HGETALL", key]

def perform : Request → RedisConnection → Answer × RedisConnection
  | ping, c => c.ping.map .flag id
  | set key value expireSeconds, c => (c.set key value expireSeconds).map .flag id
  | get key, c => (c.get key).map .value id
  | del key, c => (c.del key).map .flag id
  | hset key field value, c => (c.hset key field value).map .flag id
  | hget key field, c => (c.hget key field).map .value id
  | hgetall key, c => (c.hgetall key).map .table id

/-- The answer if the command could not be sent. -/
def unsent : Request → Answer
  | ping | set .. | del _ | hset .. => .flag false
  | get _ | hget .. => .value (.ok none)
  | hgetall _ => .table (.ok (false, ∅))

/-- What is done after sending. -/
def receive : Request → RedisConnection → Answer × RedisConnection
  | ping, c => (.flag (c.readLine.1 = some (ascii "+PONG") || c.readLine.1 = some (ascii "PONG")),
    c.readLine.2)
  | set .., c => (.flag (c.readLine.1 = some (ascii "+OK") || c.readLine.1 = some (ascii "OK")),
    c.readLine.2)
  | del _, c | hset .., c => (.flag c.readLine.1.isSome, c.readLine.2)
  | get _, c | hget .., c =>
    match received (takeBytes 1 c.arrivals) c with
    | (none, c) => (.value (.ok none), c)
    | (some type, c) =>
      if type = ascii "$" then c.readBulkString.map .value id
      else (.value (.ok none), c.readLine.2)
  | hgetall _, c =>
    match received (takeBytes 1 c.arrivals) c with
    | (none, c) => (.table (.ok (false, ∅)), c)
    | (some type, c) =>
      if type ≠ ascii "*" then (.table (.ok (false, ∅)), c.readLine.2)
      else match c.readLine with
        | (none, c) => (.table (.ok (false, ∅)), c)
        | (some countStr, c) =>
          match stoi countStr with
          | none => (.table (.error ()), c)
          | some count =>
            if count ≤ 0 then (.table (.ok (true, ∅)), c)
            else (RedisConnection.readPairs ((count.toInt.toNat + 1) / 2) ∅ c).map .table id

/-- **A command sends and then reads.**  What it sends does not depend on the connection, and if it
cannot be sent nothing is read. -/
theorem perform_eq (r : Request) (c : RedisConnection) :
    r.perform c = match c.sendCommand r.args with
      | (false, c) => (r.unsent, c)
      | (true, c) => r.receive c := by
  cases r with
  | ping =>
    rw [perform, RedisConnection.ping, args]
    rcases c.sendCommand _ with ⟨_ | _, c⟩
    · rfl
    · simp only [receive]
      rcases c.readLine with ⟨_ | line, c⟩
      · rfl
      · simp
  | set key value expireSeconds =>
    rw [perform, RedisConnection.set, args]
    rcases c.sendCommand _ with ⟨_ | _, c⟩
    · rfl
    · simp only [receive]
      rcases c.readLine with ⟨_ | line, c⟩
      · rfl
      · simp
  | get key =>
    rw [perform, RedisConnection.get, args]
    rcases c.sendCommand _ with ⟨_ | _, c⟩
    · rfl
    · simp only [receive]
      rcases received (takeBytes 1 c.arrivals) c with ⟨_ | type, c⟩
      · rfl
      · simp only
        split
        · rfl
        · rfl
  | del key =>
    rw [perform, RedisConnection.del, args]
    rcases c.sendCommand _ with ⟨_ | _, c⟩
    · rfl
    · rfl
  | hset key field value =>
    rw [perform, RedisConnection.hset, args]
    rcases c.sendCommand _ with ⟨_ | _, c⟩
    · rfl
    · rfl
  | hget key field =>
    rw [perform, RedisConnection.hget, args]
    rcases c.sendCommand _ with ⟨_ | _, c⟩
    · rfl
    · simp only [receive]
      rcases received (takeBytes 1 c.arrivals) c with ⟨_ | type, c⟩
      · rfl
      · simp only
        split
        · rfl
        · rfl
  | hgetall key =>
    rw [perform, RedisConnection.hgetall, args]
    rcases c.sendCommand _ with ⟨_ | _, c⟩
    · rfl
    · simp only [receive]
      rcases received (takeBytes 1 c.arrivals) c with ⟨_ | type, c⟩
      · rfl
      · simp only
        split
        · rfl
        · rcases c.readLine with ⟨_ | line, c⟩
          · rfl
          · simp only
            rcases stoi line with _ | count
            · rfl
            · simp only
              split
              · rfl
              · rfl

end Request
end Redis
end MultiPlayerGame
