import Mathlib.Data.List.SplitOn
import MultiPlayerGame.Library.KeyedMap
import MultiPlayerGame.Server.RedisCommands

/-!
# The Redis server

`mock_redis.py`: the parser of commands, the commands, and the loop of a connection.  The stream a
connection reads from is what has arrived so far; more may follow, so a reader that needs more is
`waiting`.  A reader that returns `None` or raises has the connection `closed`.

**The parser reads what the client sends** (`parseResp_wire`): one command, and not a byte more.

## Why it is modelled in full

The client writes exactly one form of command, and for that a parser of a few lines would do.  But
the server has no way to know who is writing, and what it does with a stream depends on what it
takes a line to be.  So the parser has its other branches too: inline commands, lengths with signs
and underscores as Python reads them, lines that are too long, and the ways in which a connection
ends.

`parseArgs` and `parseResp` return what is left of the stream, and `waiting` gives back nothing: a
coroutine that waits has taken bytes and will go on from there when more arrive.  The loop of the
connection begins the command anew with the longer stream, which comes to the same because what has
been taken is still at its front.
-/

namespace MultiPlayerGame

open Bytes (ascii digits isDigit readDigits)
open RedisConnection (wire)

namespace RedisServer

/-! ## The parser -/

/-- What a coroutine that reads from the stream comes to. -/
inductive Reading (α : Type) where
  | done (a : α) (rest : Bytes)
  | waiting
  | closed
  deriving DecidableEq, Repr

/-- The longest line that a `StreamReader` puts up with. -/
def limit : Nat := 2 ^ 16

def readline (stream : Bytes) : Reading Bytes :=
  let line := stream.takeWhile (· ≠ 0x0A)
  if limit < line.length then .closed
  else match stream.drop line.length with
    | [] => .waiting
    | newline :: rest => .done (line ++ [newline]) rest

/-- A negative length raises an exception. -/
def readexactly (n : Int) (stream : Bytes) : Reading Bytes :=
  if n < 0 then .closed
  else if stream.length < n.toNat then .waiting
  else .done (stream.take n.toNat) (stream.drop n.toNat)

/-- White space, to `bytes.strip` and `bytes.split`. -/
def isSpace (b : UInt8) : Bool := b = 0x20 || 0x09 ≤ b && b ≤ 0x0D

def strip (s : Bytes) : Bytes := (s.dropWhile isSpace).rdropWhile isSpace

/-- `int(s.strip())`: a sign and digits, single underscores between them.  `none` is the
`ValueError`. -/
def intOf (s : Bytes) : Option Int :=
  let s := strip s
  let body := if s.head? = some 0x2D ∨ s.head? = some 0x2B then s.tail else s
  if body.filter isDigit ≠ [] ∧ (∀ b ∈ body, isDigit b ∨ b = 0x5F) ∧ body.head? ≠ some 0x5F ∧
      body.getLast? ≠ some 0x5F ∧ ¬ [0x5F, 0x5F] <:+: body then
    let value : Int := readDigits 0 (body.filter isDigit)
    some (if s.head? = some 0x2D then -value else value)
  else none

/-- The loop of `parse_resp`, with the number of arguments to come. -/
def parseArgs : Nat → Bytes → Reading (List Bytes)
  | 0, stream => .done [] stream
  | count + 1, stream =>
    match readline stream with
    | .waiting => .waiting
    | .closed => .closed
    | .done lenLine stream =>
      if lenLine.head? ≠ some 0x24 then .closed
      else match intOf lenLine.tail with
        | none => .closed
        | some argLen =>
          match readexactly (argLen + 2) stream with
          | .waiting => .waiting
          | .closed => .closed
          | .done argData stream =>
            match parseArgs count stream with
            | .waiting => .waiting
            | .closed => .closed
            | .done args stream => .done (argData.take (argData.length - 2) :: args) stream

/-- A line that does not begin with a star is an inline command. -/
def parseResp (stream : Bytes) : Reading (List Bytes) :=
  match readline stream with
  | .waiting => .waiting
  | .closed => .closed
  | .done header stream =>
    if header.head? ≠ some 0x2A then
      .done (((strip header).splitOnP isSpace).filter (· ≠ [])) stream
    else match intOf header.tail with
      | none => .closed
      | some count => parseArgs count.toNat stream

end RedisServer

/-! ## The commands -/

structure RedisServer where
  kv : KeyedMap Bytes Bytes := ∅
  hashes : KeyedMap Bytes (KeyedMap Bytes Bytes) := ∅

namespace RedisServer

/-- `bytes.upper` -/
def upper (s : Bytes) : Bytes := s.map fun b => if 0x61 ≤ b && b ≤ 0x7A then b - 0x20 else b

/-- The reply that carries a value. -/
def valueReply : Option Bytes → Bytes
  | none => ascii "$-1\r\n"
  | some val => ascii "$" ++ digits val.length ++ ascii "\r\n" ++ val ++ ascii "\r\n"

def wrongNumber (name : String) : Bytes :=
  ascii "-ERR wrong number of arguments for '" ++ ascii name ++ ascii "' command\r\n"

/-- `DEL` takes its keys out one by one and counts those that were there. -/
def popAll : List Bytes → KeyedMap Bytes Bytes → Nat × KeyedMap Bytes Bytes
  | [], kv => (0, kv)
  | k :: ks, kv =>
    let (count, rest) := popAll ks (kv.erase k)
    (if k ∈ kv then count + 1 else count, rest)

def handleCommand (args : List Bytes) (srv : RedisServer) : Bytes × RedisServer :=
  match args with
  | [] => (ascii "-ERR empty command\r\n", srv)
  | name :: args =>
    let cmd := upper name
    if cmd = ascii "PING" then (ascii "+PONG\r\n", srv)
    else if cmd = ascii "SET" then
      match args with
      | key :: value :: _ => (ascii "+OK\r\n", { srv with kv := srv.kv.insert key value })
      | _ => (wrongNumber "set", srv)
    else if cmd = ascii "GET" then
      match args with
      | key :: _ => (valueReply (srv.kv.lookup key), srv)
      | _ => (wrongNumber "get", srv)
    else if cmd = ascii "DEL" then
      (ascii ":" ++ digits (popAll args srv.kv).1 ++ ascii "\r\n",
        { srv with kv := (popAll args srv.kv).2 })
    else if cmd = ascii "HSET" then
      match args with
      | key :: field :: value :: _ => (ascii ":1\r\n", { srv with
          hashes := srv.hashes.insert key (((srv.hashes.lookup key).getD ∅).insert field value) })
      | _ => (wrongNumber "hset", srv)
    else if cmd = ascii "HGET" then
      match args with
      | key :: field :: _ => (valueReply (((srv.hashes.lookup key).getD ∅).lookup field), srv)
      | _ => (wrongNumber "hget", srv)
    else if cmd = ascii "FLUSHALL" then (ascii "+OK\r\n", { srv with kv := ∅, hashes := ∅ })
    else (ascii "+OK\r\n", srv)

/-! ## A connection -/

/-- The loop of `handle_client` until it waits: what it has written, the server, and the stream that
is left.  `none` is a connection that has been closed. -/
def handleClient : Nat → Bytes → RedisServer → Option (Bytes × RedisServer × Bytes)
  | 0, stream, srv => some ([], srv, stream)
  | fuel + 1, stream, srv =>
    match parseResp stream with
    | .waiting => some ([], srv, stream)
    | .closed => none
    | .done args rest =>
      let (resp, srv) := srv.handleCommand args
      (handleClient fuel rest srv).map fun (replies, srv, stream) => (resp ++ replies, srv, stream)

/-! ## Reading what the client sends -/

/-- A line of bytes other than line feeds, and not too long, is read. -/
theorem readline_line {line : Bytes} (hline : 0x0A ∉ line) (hlen : line.length ≤ limit)
    (rest : Bytes) : readline (line ++ 0x0A :: rest) = .done (line ++ [0x0A]) rest := by
  have hne : ∀ b ∈ line, decide (b ≠ 0x0A) = true := fun b hb =>
    decide_eq_true fun h => hline (h ▸ hb)
  have htake : (line ++ 0x0A :: rest).takeWhile (· ≠ 0x0A) = line := by
    rw [List.takeWhile_append_of_pos hne]
    simp
  rw [readline]
  simp only [htake, List.drop_left]
  rw [if_neg (by omega)]

theorem rdropWhile_crlf (n : Nat) :
    (digits n ++ ascii "\r\n").rdropWhile isSpace = digits n := by
  have hcrlf : ascii "\r\n" = [0x0D] ++ [0x0A] := by decide
  have hlast : ∀ hne : digits n ≠ [], ¬ isSpace ((digits n).getLast hne) = true := fun hne h => by
    have hspace := (digit_facts (Bytes.isDigit_of_mem_digits (List.getLast_mem hne))).1
    rw [isSpace, hspace] at h
    cases h
  rw [hcrlf, ← List.append_assoc, List.rdropWhile_concat_pos _ _ _ (by decide),
    List.rdropWhile_concat_pos _ _ _ (by decide)]
  exact List.rdropWhile_eq_self_iff.mpr hlast

/-- **A number on a line is read back.**  It has no sign and no underscore, and the line break
behind it is white space. -/
theorem intOf_digits (n : Nat) : intOf (digits n ++ ascii "\r\n") = some (n : Int) := by
  obtain ⟨b, bs, hbs⟩ := List.exists_cons_of_ne_nil (Bytes.digits_ne_nil n)
  have hdigit : ∀ b ∈ digits n, isDigit b = true := fun _ hb => Bytes.isDigit_of_mem_digits hb
  obtain ⟨hspace, hminus, hplus⟩ := digit_facts (b := b) (hdigit b (hbs ▸ List.mem_cons_self))
  have hunderscore : 0x5F ∉ digits n := fun hmem => absurd (hdigit _ hmem) (by decide)
  have hstrip : strip (digits n ++ ascii "\r\n") = digits n := by
    have hdrop : (digits n ++ ascii "\r\n").dropWhile isSpace = digits n ++ ascii "\r\n" := by
      rw [hbs, List.cons_append]
      exact List.dropWhile_cons_of_neg (by rw [isSpace, hspace]; exact Bool.false_ne_true)
    rw [strip, hdrop, rdropWhile_crlf]
  have hhead : (digits n).head? = some b := by rw [hbs, List.head?_cons]
  have hfilter : (digits n).filter isDigit = digits n := List.filter_eq_self.mpr hdigit
  have hb : b ≠ 0x5F := fun h => hunderscore (h ▸ hbs ▸ List.mem_cons_self)
  have hlast : (digits n).getLast? ≠ some 0x5F := fun h =>
    hunderscore (List.mem_of_getLast? h)
  have hpair : ¬ [0x5F, 0x5F] <:+: digits n := fun h => hunderscore (h.subset List.mem_cons_self)
  simp only [intOf, hstrip, hhead, Option.some.injEq, hminus, hplus, or_self, if_false, hfilter,
    Bytes.readDigits_digits]
  rw [if_pos ⟨Bytes.digits_ne_nil n, fun b hb => Or.inl (hdigit b hb),
    fun h => hb (Option.some.inj h), hlast, hpair⟩]

/-- The line that carries a number. -/
theorem readline_number (b : UInt8) (hb : b ≠ 0x0A) {n : Nat} (hn : n < 2 ^ 31) (rest : Bytes) :
    readline (b :: digits n ++ ascii "\r\n" ++ rest) =
      .done (b :: digits n ++ ascii "\r\n") rest := by
  have hcrlf : ascii "\r\n" = [0x0D, 0x0A] := by decide
  have hdigits : (digits n).length ≤ 10 :=
    (Bytes.length_digits_le_iff (by omega)).mpr (by omega)
  have hlf : 0x0A ∉ b :: digits n ++ [0x0D] := by
    have hno : 0x0A ∉ digits n := fun hmem =>
      absurd (Bytes.isDigit_of_mem_digits hmem) (by decide)
    simp [hno, Ne.symm hb]
  have hlen : (b :: digits n ++ [0x0D]).length ≤ limit := by
    simp only [List.length_append, List.length_cons, List.length_nil, limit]
    omega
  have hline := readline_line hlf hlen rest
  rw [hcrlf]
  simpa using hline

theorem readexactly_append (bs rest : Bytes) :
    readexactly bs.length (bs ++ rest) = .done bs rest := by
  rw [readexactly, if_neg (by omega), if_neg (by simp)]
  simp

/-- The bytes that carry the arguments. -/
def payload (args : List Bytes) : Bytes :=
  args.flatMap fun arg => ascii "$" ++ digits arg.length ++ ascii "\r\n" ++ arg ++ ascii "\r\n"

theorem payload_cons (arg : Bytes) (args : List Bytes) (rest : Bytes) :
    payload (arg :: args) ++ rest = 0x24 :: digits arg.length ++ ascii "\r\n" ++
      (arg ++ ascii "\r\n" ++ (payload args ++ rest)) := by
  have hdollar : ascii "$" = [0x24] := by decide
  simp [payload, hdollar]

theorem intOf_line (b : UInt8) (n : Nat) :
    intOf (b :: digits n ++ ascii "\r\n").tail = some (n : Int) := intOf_digits n

/-- **The arguments are recovered.**  By induction on the arguments, each of which is skipped over
by its length. -/
theorem parseArgs_payload (args : List Bytes) (hargs : ∀ arg ∈ args, arg.length < 2 ^ 31)
    (rest : Bytes) : parseArgs args.length (payload args ++ rest) = .done args rest := by
  induction args with
  | nil => rfl
  | cons arg args ih =>
    have hrest := ih fun arg h => hargs arg (List.mem_cons_of_mem _ h)
    have hdata := readexactly_append (arg ++ ascii "\r\n") (payload args ++ rest)
    have htwo : ((arg ++ ascii "\r\n").length : Int) = arg.length + 2 := by
      rw [List.length_append]
      rfl
    have htake : (arg ++ ascii "\r\n").take ((arg ++ ascii "\r\n").length - 2) = arg := by
      have hlength : (arg ++ ascii "\r\n").length - 2 = arg.length := by omega
      rw [hlength, List.take_left]
    rw [htwo] at hdata
    rw [payload_cons, List.length_cons, parseArgs,
      readline_number 0x24 (by decide) (hargs arg List.mem_cons_self)]
    simp only [intOf_line, hdata, hrest, htake]
    rfl

/-- **The parser reads what the client sends**, and not a byte more.  Its first line is the number
of arguments, and they follow with their lengths. -/
theorem parseResp_wire (args : List Bytes) (hcount : args.length < 2 ^ 31)
    (hargs : ∀ arg ∈ args, arg.length < 2 ^ 31) (rest : Bytes) :
    parseResp (wire args ++ rest) = .done args rest := by
  have hstar : ascii "*" = [0x2A] := by decide
  have hwire : wire args ++ rest =
      0x2A :: digits args.length ++ ascii "\r\n" ++ (payload args ++ rest) := by
    rw [wire, hstar]
    simp [payload]
  rw [hwire, parseResp, readline_number 0x2A (by decide) hcount]
  simp only [intOf_line, Int.toNat_natCast, parseArgs_payload args hargs rest]
  rfl

end RedisServer
end MultiPlayerGame
