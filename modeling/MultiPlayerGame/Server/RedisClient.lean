import MultiPlayerGame.Library.Bytes

/-!
# The Redis client

`RedisConnection` over a socket about which nothing is known.  What the other side and the network
do is input: whether each attempt to connect succeeds, how many bytes each `send` takes, and what
each `recv` finds.  A `recv` finds the next byte, or it fails --- a timeout, a reset, the end of the
stream; a loop of `recv`s takes the bytes in pieces of whatever size, so pieces are not modelled.
When the arrivals are used up, `recv` fails.

An exception that leaves a method is `Except.error`.  There is one, from `std::stoi`.

## When an exception gets out

`std::stoi` is called on what stands between the type byte and the end of the line, and throws if
there is no number at the start of it or one that does not fit an `int`.  `readBulkString_error_iff`
turns this into a condition on the bytes that arrive (`BadLength`), and `get_error_iff` into one on
everything that the network does to a `GET`: there has to be a connection, the command has to have
been sent in full, and the reply has to begin like a string (`Garbled`).  Each condition is exact.
That is needed where the exception is the only way in which Redis has a say in an answer: if it
cannot be thrown, what Redis does is without influence.

The pool keeps its connections with nothing but the state of their sockets.  Bytes that an earlier
command has left on one are among the arrivals of the next command, and so nothing is assumed about
them here; how they come to be left is the subject of `Results.StaleReplies`.
-/

namespace MultiPlayerGame

open Bytes (ascii digits isDigit readDigits)

/-- A connection together with what the network is going to do to it. -/
structure RedisConnection where
  /-- `m_socketFd >= 0` -/
  connected : Bool := false
  /-- do the next `socket`, `inet_pton` and `connect` all succeed? -/
  connects : List Bool := []
  /-- what the next calls of `send` return -/
  sends : List Int := []
  /-- the bytes the next calls of `recv` find; `none` is a call that fails -/
  arrivals : List (Option UInt8) := []
  deriving DecidableEq, Repr

/-- `std::stoi`: white space, a sign and digits; whatever follows is ignored.  `none` is an
exception: there is no digit, or the number does not fit an `int`. -/
def stoi (s : Bytes) : Option Int32 :=
  let s := s.dropWhile fun b => b = 0x20 || 0x09 ≤ b && b ≤ 0x0D
  let negative := s.head? = some 0x2D
  let unsigned := if s.head? = some 0x2D ∨ s.head? = some 0x2B then s.tail else s
  let ds := unsigned.takeWhile isDigit
  let value : Int := if negative then -(readDigits 0 ds : Int) else readDigits 0 ds
  if ds = [] ∨ value < -2 ^ 31 ∨ 2 ^ 31 ≤ value then none else some (Int32.ofInt value)

theorem digit_facts {b : UInt8} (hb : isDigit b = true) :
    (b = 0x20 || 0x09 ≤ b && b ≤ 0x0D) = false ∧ b ≠ 0x2D ∧ b ≠ 0x2B := by
  have hle := Bytes.isDigit_iff.mp hb
  refine ⟨?_, ?_, ?_⟩
  · simp [UInt8.le_iff_toNat_le, ← UInt8.toNat_inj]
    omega
  · rintro rfl
    cases hb
  · rintro rfl
    cases hb

theorem takeWhile_digits (n : Nat) : (digits n).takeWhile isDigit = digits n :=
  List.takeWhile_eq_self_iff.mpr fun _ hb => Bytes.isDigit_of_mem_digits hb

/-- **`stoi` undoes `to_string`** on the numbers that fit.  The sign is read, and the digits up to
the first byte that is none. -/
theorem stoi_decimal (z : Int) : stoi (Bytes.decimal z) =
    if z < -2 ^ 31 ∨ 2 ^ 31 ≤ z then none else some (Int32.ofInt z) := by
  cases z with
  | ofNat n =>
    obtain ⟨b, bs, hbs⟩ := List.exists_cons_of_ne_nil (Bytes.digits_ne_nil n)
    obtain ⟨hspace, hminus, hplus⟩ := digit_facts (b := b)
      (Bytes.isDigit_of_mem_digits (n := n) (hbs ▸ List.mem_cons_self))
    have hdrop : (digits n).dropWhile (fun b => b = 0x20 || 0x09 ≤ b && b ≤ 0x0D) = digits n := by
      rw [hbs]
      exact List.dropWhile_cons_of_neg (by rw [hspace]; exact Bool.false_ne_true)
    have hhead : (digits n).head? = some b := by rw [hbs, List.head?_cons]
    simp only [stoi, Bytes.decimal, hdrop, hhead, Option.some.injEq, hminus, hplus, or_self,
      if_false, takeWhile_digits, Bytes.readDigits_digits, Bytes.digits_ne_nil, false_or]
    rfl
  | negSucc n =>
    have hdrop : (0x2D :: digits (n + 1)).dropWhile (fun b => b = 0x20 || 0x09 ≤ b && b ≤ 0x0D) =
        0x2D :: digits (n + 1) := rfl
    simp only [stoi, Bytes.decimal, hdrop, List.head?_cons, true_or, if_true, List.tail_cons,
      takeWhile_digits, Bytes.readDigits_digits, Bytes.digits_ne_nil, false_or]
    rfl

theorem stoi_toInt (n : Int32) : stoi (Bytes.decimal n.toInt) = some n := by
  have hle := n.le_toInt
  have hlt := n.toInt_lt
  rw [stoi_decimal, if_neg (by omega), Int32.ofInt_toInt]

namespace RedisConnection

def connect (c : RedisConnection) : Bool × RedisConnection :=
  if c.connected then (true, c)
  else match c.connects with
    | ok :: rest => (ok, { c with connected := ok, connects := rest })
    | [] => (false, c)

def disconnect (c : RedisConnection) : RedisConnection := { c with connected := false }

/-- The RESP array that carries a command. -/
def wire (args : List Bytes) : Bytes :=
  ascii "*" ++ digits args.length ++ ascii "\r\n" ++
    args.flatMap fun arg => ascii "$" ++ digits arg.length ++ ascii "\r\n" ++ arg ++ ascii "\r\n"

def sendCommand (args : List Bytes) (c : RedisConnection) : Bool × RedisConnection :=
  match c.connect with
  | (false, c) => (false, c)
  | (true, c) =>
    if c.sends.head? = some ((wire args).length : Int) then (true, { c with sends := c.sends.tail })
    else (false, { c with sends := c.sends.tail }.disconnect)

/-- The loop of `readLine`, with `line` read so far: the line and the arrivals behind it. -/
def takeLine (line : Bytes) : List (Option UInt8) → Option Bytes × List (Option UInt8)
  | [] => (none, [])
  | none :: rest => (none, rest)
  | some c :: rest =>
    if c = 0x0D then
      match rest with
      | some 0x0A :: rest => (some line, rest)
      | _ :: rest => (none, rest)
      | [] => (none, [])
    else takeLine (line ++ [c]) rest

/-- A connection is given up whenever something could not be read. -/
def received {α : Type} (r : Option α × List (Option UInt8)) (c : RedisConnection) :
    Option α × RedisConnection :=
  match r with
  | (some a, rest) => (some a, { c with arrivals := rest })
  | (none, rest) => (none, { c with arrivals := rest }.disconnect)

def readLine (c : RedisConnection) : Option Bytes × RedisConnection :=
  received (takeLine [] c.arrivals) c

/-- `n` bytes, or nothing if a `recv` fails before. -/
def takeBytes : Nat → List (Option UInt8) → Option Bytes × List (Option UInt8)
  | 0, rest => (some [], rest)
  | _ + 1, [] => (none, [])
  | _ + 1, none :: rest => (none, rest)
  | n + 1, some b :: rest =>
    match takeBytes n rest with
    | (some bs, rest) => (some (b :: bs), rest)
    | (none, rest) => (none, rest)

/-- Reads a length, that many bytes and two more.  A negative length says that there is no such
key. -/
def readBulkString (c : RedisConnection) : Except Unit (Option Bytes) × RedisConnection :=
  match c.readLine with
  | (none, c) => (.ok none, c)
  | (some line, c) =>
    match stoi line with
    | none => (.error (), c)
    | some len =>
      if len < 0 then (.ok none, c)
      else match received (takeBytes len.toInt.toNat c.arrivals) c with
        | (none, c) => (.ok none, c)
        | (some out, c) =>
          match received (takeBytes 2 c.arrivals) c with
          | (none, c) => (.ok none, c)
          | (some _, c) => (.ok (some out), c)

def set (key value : Bytes) (expireSeconds : Nat) (c : RedisConnection) :
    Bool × RedisConnection :=
  let expiry := if 0 < expireSeconds then [ascii "EX", digits expireSeconds] else []
  match c.sendCommand ([ascii "SET", key, value] ++ expiry) with
  | (false, c) => (false, c)
  | (true, c) =>
    match c.readLine with
    | (none, c) => (false, c)
    | (some line, c) => (line = ascii "+OK" || line = ascii "OK", c)

def get (key : Bytes) (c : RedisConnection) : Except Unit (Option Bytes) × RedisConnection :=
  match c.sendCommand [ascii "GET", key] with
  | (false, c) => (.ok none, c)
  | (true, c) =>
    match received (takeBytes 1 c.arrivals) c with
    | (none, c) => (.ok none, c)
    | (some type, c) =>
      if type = ascii "$" then c.readBulkString
      else (.ok none, c.readLine.2)

def del (key : Bytes) (c : RedisConnection) : Bool × RedisConnection :=
  match c.sendCommand [ascii "DEL", key] with
  | (false, c) => (false, c)
  | (true, c) => (c.readLine.1.isSome, c.readLine.2)

end RedisConnection

/-! ## The pool -/

/-- `RedisPool`: the connections at rest.  Only the state of their sockets is kept with them. -/
structure RedisPool where
  available : List Bool := []
  deriving DecidableEq, Repr

namespace RedisPool

def poolSize : Nat := 64

/-- `acquire`, one command on the connection, and `release` when the `PooledConnection` goes out of
scope.  `net` is what the network does in the meantime. -/
def withConnection {α : Type} (command : RedisConnection → α × RedisConnection)
    (net : RedisConnection) (pool : RedisPool) : α × RedisPool :=
  let conn := { net with connected := pool.available.getLast?.getD false }
  let available := pool.available.dropLast
  let conn := if conn.connected then conn else conn.connect.2
  let (a, conn) := command conn
  (a, ⟨if available.length < poolSize then available ++ [conn.connected] else available⟩)

end RedisPool

/-! ## When the client throws -/

namespace RedisConnection

theorem takeLine_byte {c : UInt8} (hc : c ≠ 0x0D) (line : Bytes) (rest : List (Option UInt8)) :
    takeLine line (some c :: rest) = takeLine (line ++ [c]) rest := by
  rw [takeLine.eq_def]
  exact if_neg hc

theorem takeLine_cr (line : Bytes) (rest : List (Option UInt8)) :
    takeLine line (some 0x0D :: rest) = match rest with
      | some 0x0A :: rest => (some line, rest)
      | _ :: rest => (none, rest)
      | [] => (none, []) := by
  rw [takeLine.eq_def]
  exact if_pos rfl

theorem takeLine_line {line : Bytes} (hline : 0x0D ∉ line) (before : Bytes)
    (rest : List (Option UInt8)) :
    takeLine before (line.map some ++ some 0x0D :: some 0x0A :: rest) =
      (some (before ++ line), rest) := by
  induction line generalizing before with
  | nil => simp [takeLine]
  | cons c line ih =>
    have hc : c ≠ 0x0D := fun h => hline (h ▸ List.mem_cons_self)
    have hrest : 0x0D ∉ line := fun h => hline (List.mem_cons_of_mem _ h)
    rw [List.map_cons, List.cons_append, takeLine_byte hc, ih hrest, List.append_assoc]
    rfl

theorem line_of_takeLine {before l : Bytes} {arrivals rest : List (Option UInt8)}
    (h : takeLine before arrivals = (some l, rest)) : ∃ line, l = before ++ line ∧ 0x0D ∉ line ∧
      arrivals = line.map some ++ some 0x0D :: some 0x0A :: rest := by
  induction arrivals generalizing before with
  | nil => cases h
  | cons c arrivals ih =>
    cases c with
    | none => cases h
    | some c =>
      by_cases hc : c = 0x0D
      · subst hc
        rw [takeLine_cr] at h
        split at h
        · cases h
          exact ⟨[], (List.append_nil _).symm, List.not_mem_nil, rfl⟩
        · cases h
        · cases h
      · rw [takeLine_byte hc] at h
        obtain ⟨line, hl, hline, harrivals⟩ := ih h
        refine ⟨c :: line, by rw [hl, List.append_assoc]; rfl, ?_, by rw [harrivals]; rfl⟩
        exact List.not_mem_cons_of_ne_of_not_mem (Ne.symm hc) hline

/-- A line that has no number at its start, behind white space and a sign, or one that does not fit
an `int`. -/
def BadLength (arrivals : List (Option UInt8)) : Prop :=
  ∃ (line : Bytes) (rest : List (Option UInt8)),
    arrivals = line.map some ++ some 0x0D :: some 0x0A :: rest ∧ 0x0D ∉ line ∧ stoi line = none

theorem readLine_eq (c : RedisConnection) :
    c.readLine.1 = (takeLine [] c.arrivals).1 ∧
      c.readLine.2.arrivals = (takeLine [] c.arrivals).2 := by
  unfold readLine received
  split
  · rename_i h
    rw [h]
    exact ⟨rfl, rfl⟩
  · rename_i h
    rw [h]
    exact ⟨rfl, rfl⟩

/-- `readBulkString` throws if the line it begins with is no number, and in no other case. -/
theorem readBulkString_error_iff (c : RedisConnection) :
    c.readBulkString.1 = .error () ↔ BadLength c.arrivals := by
  obtain ⟨hline, -⟩ := c.readLine_eq
  constructor
  · intro h
    unfold readBulkString at h
    split at h
    · cases h
    · rename_i line c' hread
      rw [hread] at hline
      obtain ⟨l, hl, hno, harrivals⟩ := line_of_takeLine (Prod.ext hline.symm rfl)
      rw [List.nil_append] at hl
      subst hl
      split at h
      · rename_i hstoi
        exact ⟨line, _, harrivals, hno, hstoi⟩
      · split at h
        · cases h
        · split at h
          · cases h
          · split at h
            · cases h
            · cases h
  · rintro ⟨line, rest, harrivals, hno, hstoi⟩
    rw [harrivals, takeLine_line hno, List.nil_append] at hline
    unfold readBulkString
    split
    · rename_i hread
      rw [hread] at hline
      cases hline
    · rename_i line' c' hread
      rw [hread] at hline
      cases hline
      rw [hstoi]

theorem connect_fields (c : RedisConnection) :
    c.connect.2.sends = c.sends ∧ c.connect.2.arrivals = c.arrivals := by
  unfold connect
  split
  · exact ⟨rfl, rfl⟩
  · split
    · exact ⟨rfl, rfl⟩
    · exact ⟨rfl, rfl⟩

/-- `get` throws if it could send its command and the reply begins like a string with a bad
length. -/
theorem get_error_iff (key : Bytes) (c : RedisConnection) :
    (get key c).1 = .error () ↔ c.connect.1 = true ∧
      c.sends.head? = some ((wire [ascii "GET", key]).length : Int) ∧
        ∃ rest, c.arrivals = some 0x24 :: rest ∧ BadLength rest := by
  obtain ⟨hsends, harrivals⟩ := c.connect_fields
  unfold get sendCommand
  rcases hconnect : c.connect with ⟨ok, c'⟩
  rw [hconnect] at hsends harrivals
  simp only at hsends harrivals
  cases ok with
  | false => simp
  | true =>
    simp only [hsends, true_and]
    by_cases hsent : c.sends.head? = some ((wire [ascii "GET", key]).length : Int)
    swap
    · simp [hsent]
    rw [if_pos hsent]
    simp only [hsent, true_and, harrivals]
    -- the first byte
    rcases c.arrivals with _ | ⟨_ | b, rest⟩
    · simp [takeBytes, received]
    · simp [takeBytes, received]
    have hdollar : ascii "$" = [0x24] := by decide
    simp only [takeBytes, received, hdollar]
    by_cases hb : b = 0x24
    · subst hb
      rw [if_pos rfl, readBulkString_error_iff]
      simp
    · rw [if_neg (by simpa using hb)]
      simp [hb]

end RedisConnection

namespace RedisPool

variable (pool : RedisPool) (net : RedisConnection)

/-- Is there a connection to send a command on?  One that was at rest, or one made by the first
attempt to connect, in `acquire`, or by the second, in `sendCommand`. -/
def Connects : Prop :=
  pool.available.getLast? = some true ∨ net.connects.head? = some true ∨
    net.connects[1]? = some true

/-- The command `GET key` is sent, and the reply begins like a string with a bad length. -/
def Garbled (key : Bytes) : Prop :=
  pool.Connects net ∧
    net.sends.head? = some ((RedisConnection.wire [ascii "GET", key]).length : Int) ∧
      ∃ rest, net.arrivals = some 0x24 :: rest ∧ RedisConnection.BadLength rest

/-- The connection that `acquire` hands out.  Its socket is as it was left, and what the network
will do to it is input. -/
def acquired : RedisConnection :=
  let conn := { net with connected := pool.available.getLast?.getD false }
  if conn.connected then conn else conn.connect.2

theorem withConnection_fst {α : Type} (command : RedisConnection → α × RedisConnection) :
    (pool.withConnection command net).1 = (command (pool.acquired net)).1 := rfl

theorem acquired_fields :
    (pool.acquired net).sends = net.sends ∧ (pool.acquired net).arrivals = net.arrivals := by
  unfold acquired
  simp only
  split
  · exact ⟨rfl, rfl⟩
  · exact RedisConnection.connect_fields _

/-- Two attempts. -/
theorem connect_twice :
    ({ net with connected := false } : RedisConnection).connect.2.connect.1 = true ↔
      net.connects.head? = some true ∨ net.connects[1]? = some true := by
  unfold RedisConnection.connect
  rcases net.connects with _ | ⟨_ | _, _ | ⟨ok, _⟩⟩ <;> simp

theorem connect_acquired : (pool.acquired net).connect.1 = true ↔ pool.Connects net := by
  unfold acquired Connects
  rcases pool.available.getLast? with _ | _ | _
  · simpa using connect_twice net
  · simpa using connect_twice net
  · simp [RedisConnection.connect]

/-- **When a `GET` makes the client throw.** -/
theorem get_error_iff (key : Bytes) :
    (pool.withConnection (RedisConnection.get key) net).1 = .error () ↔ pool.Garbled net key := by
  obtain ⟨hsends, harrivals⟩ := pool.acquired_fields net
  rw [withConnection_fst, RedisConnection.get_error_iff, connect_acquired, hsends, harrivals]
  rfl

end RedisPool

end MultiPlayerGame
