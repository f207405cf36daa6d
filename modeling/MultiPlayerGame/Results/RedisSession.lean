import MultiPlayerGame.Library.Since
import MultiPlayerGame.Server.MockRedis

/-!
# A session with the Redis server

One connection of the client and the server of `mock_redis.py`, over a stream that loses nothing.
Whatever bytes keys and values consist of, the server recovers the arguments that were sent, the
client reads the replies to their last byte, and the answers are those of two maps: what was last
set and not deleted since, and what was last set in a hash.

The invariant is `InStep`: nothing is left on the stream in either direction, and the server holds
what the commands so far say.  One command keeps it (`issue_inStep`); a session is an induction.

## Why it holds

The protocol announces every length before the bytes, so neither side ever looks for the end of a
key or a value.  That is why their bytes are arbitrary: a value that looks like a command or a reply
is skipped over by its length.  On the way to the server it is `RedisServer.parseResp_wire`, on the
way back `receive_reply`, and both are about the bytes in front of any rest, so that nothing is
taken of what comes later.

What the server answers is then a matter of its maps.  `lookup_next` follows one key through one
command: `SET` and `DEL` change it, everything else leaves it, and a hash under the same name is
another map of the server, which `lookup_next_field` follows.  An answer says what the last command
about that key has left (`stored`), and the session is read backwards for it.

A value of 2^31 bytes and more has a length that the client cannot convert, which is the one
condition (`Short`).
-/

namespace MultiPlayerGame
namespace RedisSession

open Bytes (ascii digits)
open RedisConnection (wire bulkTail)
open RedisServer (parseResp valueReply)
open Redis (Request Answer)
open Since (latest latest_concat)

/-! ## The two ends -/

/-- A connection, the server, and what has been sent and not been parsed yet. -/
structure Link where
  conn : RedisConnection := {}
  server : RedisServer := {}
  pending : Bytes := []

/-- The socket connects and takes a whole command; the replies arrive behind what is there. -/
def faithful (c : RedisConnection) (command replies : Bytes) : RedisConnection :=
  { c with
    connects := [true]
    sends := [(command.length : Int)]
    arrivals := c.arrivals ++ replies.map some }

/-- One command.  The server works through all that it has received before the client reads; `none`
is a server that closes the connection. -/
def Link.issue (l : Link) (r : Request) : Option (Answer × Link) :=
  let stream := l.pending ++ wire r.args
  (l.server.handleClient stream.length stream).map fun (replies, server, pending) =>
    let (a, conn) := r.perform (faithful l.conn (wire r.args) replies)
    (a, ⟨conn, server, pending⟩)

/-- Several commands, with their answers. -/
def Link.issueAll : List Request → Link → Option (List Answer × Link)
  | [], l => some ([], l)
  | r :: rs, l => (l.issue r).bind fun (a, l) =>
    (issueAll rs l).map fun (as, l) => (a :: as, l)

/-! ## What the answers should be -/

/-- What a command makes of the value of a key. -/
def stores (key : Bytes) : Request → Option (Option Bytes)
  | .set k v _ => if k = key then some (some v) else none
  | .del k => if k = key then some none else none
  | _ => none

/-- What a command makes of a field of a hash. -/
def storesField (key field : Bytes) : Request → Option Bytes
  | .hset k f v => if k = key ∧ f = field then some v else none
  | _ => none

/-- The last value set and not deleted since.  It is read off the commands, as if each of them had
been carried out at once. -/
def stored (key : Bytes) (requests : List Request) : Option Bytes :=
  (latest (stores key) requests).join

/-- The last value set in the hash. -/
def storedField (key field : Bytes) (requests : List Request) : Option Bytes :=
  latest (storesField key field) requests

/-- The answer of a command after others.  The server does not know `HGETALL`. -/
def expected (before : List Request) : Request → Answer
  | .ping | .set .. | .del _ | .hset .. => .flag true
  | .get key => .value (.ok (stored key before))
  | .hget key field => .value (.ok (storedField key field before))
  | .hgetall _ => .table (.ok (false, ∅))

def expectedAll : (before : List Request) → List Request → List Answer
  | _, [] => []
  | before, r :: rs => expected before r :: expectedAll (before ++ [r]) rs

/-- The strings of a command are shorter than 2^31 bytes. -/
def Short (r : Request) : Prop := ∀ arg ∈ r.args, arg.length < 2 ^ 31

/-! ## One command -/

section Command

variable (srv : RedisServer)

/-- The reply of the server. -/
def reply : Request → Bytes
  | .ping => ascii "+PONG\r\n"
  | .set .. | .hgetall _ => ascii "+OK\r\n"
  | .get key => valueReply (srv.kv.lookup key)
  | .del key => ascii ":" ++ digits (RedisServer.popAll [key] srv.kv).1 ++ ascii "\r\n"
  | .hset .. => ascii ":1\r\n"
  | .hget key field => valueReply (((srv.hashes.lookup key).getD ∅).lookup field)

/-- The server after a command.  The server changes only by the commands that it knows. -/
def next : Request → RedisServer
  | .set key value _ => { srv with kv := srv.kv.insert key value }
  | .del key => { srv with kv := srv.kv.erase key }
  | .hset key field value => { srv with
      hashes := srv.hashes.insert key (((srv.hashes.lookup key).getD ∅).insert field value) }
  | _ => srv

theorem handleCommand_args (r : Request) :
    srv.handleCommand r.args = (reply srv r, next srv r) := by
  cases r with
  | _ => rfl

theorem length_args (r : Request) : r.args.length < 2 ^ 31 := by
  cases r with
  | set key value expireSeconds =>
    rw [Request.args]
    split
    · exact (by decide : 5 < 2 ^ 31)
    · exact (by decide : 3 < 2 ^ 31)
  | ping => exact (by decide : 1 < 2 ^ 31)
  | get | del | hgetall => exact (by decide : 2 < 2 ^ 31)
  | hget => exact (by decide : 3 < 2 ^ 31)
  | hset => exact (by decide : 4 < 2 ^ 31)

/-- **The server answers the command and waits for the next one.**  The parser takes exactly the
bytes of the command, and nothing is left on the stream. -/
theorem handleClient_wire {r : Request} (hshort : Short r) :
    srv.handleClient (wire r.args).length (wire r.args) = some (reply srv r, next srv r, []) := by
  have hparse := RedisServer.parseResp_wire r.args (length_args r) hshort []
  rw [List.append_nil] at hparse
  obtain ⟨n, hn⟩ : ∃ n, (wire r.args).length = n + 1 := ⟨_, rfl⟩
  have hwaits : ∀ n, (next srv r).handleClient n [] = some ([], next srv r, []) := fun n => by
    cases n with
    | zero => rfl
    | succ n => rfl
  rw [hn, RedisServer.handleClient, hparse]
  simp only [handleCommand_args, hwaits, Option.map_some, List.append_nil]

/-- What the client makes of the reply. -/
def understood : Request → Answer
  | .ping | .set .. | .del _ | .hset .. => .flag true
  | .get key => .value (.ok (srv.kv.lookup key))
  | .hget key field => .value (.ok (((srv.hashes.lookup key).getD ∅).lookup field))
  | .hgetall _ => .table (.ok (false, ∅))

/-- A value is read to its end. -/
theorem receive_valueReply {c : RedisConnection} {v : Option Bytes}
    (hv : ∀ s ∈ v, s.length < 2 ^ 31) (h : c.arrivals = (valueReply v).map some) (key : Bytes) :
    (Request.get key).receive c = (.value (.ok v), { c with arrivals := [] }) := by
  have hdollar : ascii "$" = [0x24] := by decide
  cases v with
  | none =>
    have hnull : RedisConnection.readBulkString { c with arrivals := (ascii "-1\r\n").map some } =
        (.ok none, { c with arrivals := [] }) :=
      RedisConnection.readBulkString_null (List.append_nil _).symm
    have harrivals : c.arrivals = some 0x24 :: (ascii "-1\r\n").map some := h
    rw [Request.receive, harrivals]
    simp only [RedisConnection.takeBytes, RedisConnection.received, hdollar, if_true]
    rw [hnull]
    rfl
  | some s =>
    have hbulk : ({ c with arrivals := (bulkTail s).map some } : RedisConnection).readBulkString =
        (.ok (some s), { c with arrivals := [] }) :=
      RedisConnection.readBulkString_bulk (hv s rfl) (List.append_nil _).symm
    have harrivals : c.arrivals = some 0x24 :: (bulkTail s).map some := by
      rw [h, valueReply, hdollar, bulkTail]
      simp
    rw [Request.receive, harrivals]
    simp only [RedisConnection.takeBytes, RedisConnection.received, hdollar, if_true]
    rw [hbulk]
    rfl

/-- **The client understands the reply**, and reads it to its end.  What the client makes of it is
what the server has meant, by the type of the reply and its length. -/
theorem receive_reply {r : Request} {c : RedisConnection} (hshort : Short r)
    (hkv : ∀ key, ∀ s ∈ srv.kv.lookup key, s.length < 2 ^ 31)
    (hhashes : ∀ key field, ∀ s ∈ ((srv.hashes.lookup key).getD ∅).lookup field,
      s.length < 2 ^ 31) (h : c.arrivals = (reply srv r).map some) :
    r.receive c = (understood srv r, { c with arrivals := [] }) := by
  have hline : ∀ line : Bytes, 0x0D ∉ line → c.arrivals = (line ++ ascii "\r\n").map some →
      c.readLine = (some line, { c with arrivals := [] }) := fun line hno harrivals =>
    RedisConnection.readLine_line hno (harrivals.trans (List.append_nil _).symm)
  cases r with
  | ping =>
    rw [Request.receive, hline (ascii "+PONG") (by decide) h]
    rfl
  | set key value expireSeconds =>
    rw [Request.receive, hline (ascii "+OK") (by decide) h]
    rfl
  | get key => exact receive_valueReply (hkv key) h key
  | del key =>
    have hno : 0x0D ∉ ascii ":" ++ digits (RedisServer.popAll [key] srv.kv).1 := by
      rw [List.mem_append, not_or]
      exact ⟨by decide, RedisConnection.cr_notMem_digits _⟩
    rw [Request.receive, hline _ hno h]
    rfl
  | hset key field value =>
    rw [Request.receive, hline (ascii ":1") (by decide) h]
    rfl
  | hget key field => exact receive_valueReply (hhashes key field) h key
  | hgetall key =>
    have hrest : ({ c with arrivals := (ascii "OK\r\n").map some } : RedisConnection).readLine =
        (some (ascii "OK"), { c with arrivals := [] }) :=
      RedisConnection.readLine_line (by decide) (List.append_nil _).symm
    have harrivals : c.arrivals = some 0x2B :: (ascii "OK\r\n").map some := h
    have hstar : [0x2B] ≠ ascii "*" := by decide
    rw [Request.receive, harrivals]
    simp only [RedisConnection.takeBytes, RedisConnection.received, hstar, ne_eq, not_false_eq_true,
      if_true]
    rw [hrest]
    rfl

end Command

/-! ## A session -/

/-- Nothing is under way, and the server holds what the commands say. -/
structure InStep (before : List Request) (l : Link) : Prop where
  parsed : l.pending = []
  consumed : l.conn.arrivals = []
  kv : ∀ key, l.server.kv.lookup key = stored key before
  hashes : ∀ key field,
    ((l.server.hashes.lookup key).getD ∅).lookup field = storedField key field before
  short : ∀ r ∈ before, Short r

theorem stored_concat (key : Bytes) (before : List Request) (r : Request) :
    stored key (before ++ [r]) = match stores key r with
      | some v => v
      | none => stored key before := by
  rw [stored, latest_concat]
  cases stores key r with
  | none => rfl
  | some v => rfl

theorem storedField_concat (key field : Bytes) (before : List Request) (r : Request) :
    storedField key field (before ++ [r]) =
      (storesField key field r).or (storedField key field before) :=
  latest_concat _ _ _

/-- A stored value has been an argument. -/
theorem length_stored {key : Bytes} {before : List Request} (hshort : ∀ r ∈ before, Short r)
    {s : Bytes} (hs : s ∈ stored key before) : s.length < 2 ^ 31 := by
  induction before using List.reverseRecOn with
  | nil => cases hs
  | append_singleton before r ih =>
    rw [stored_concat] at hs
    cases hr : stores key r with
    | none =>
      rw [hr] at hs
      exact ih (fun r h => hshort r (List.mem_append_left _ h)) hs
    | some v =>
      rw [hr] at hs
      have hr' := hshort r List.mem_concat_self
      cases r with
      | set k value expireSeconds =>
        rw [stores] at hr
        split at hr
        · cases hr
          cases hs
          exact hr' s (by simp [Request.args])
        · cases hr
      | del k =>
        rw [stores] at hr
        split at hr
        · cases hr
          cases hs
        · cases hr
      | _ => cases hr

theorem length_storedField {key field : Bytes} {before : List Request}
    (hshort : ∀ r ∈ before, Short r) {s : Bytes} (hs : s ∈ storedField key field before) :
    s.length < 2 ^ 31 := by
  induction before using List.reverseRecOn with
  | nil => cases hs
  | append_singleton before r ih =>
    rw [storedField_concat] at hs
    cases hr : storesField key field r with
    | none =>
      rw [hr, Option.none_or] at hs
      exact ih (fun r h => hshort r (List.mem_append_left _ h)) hs
    | some v =>
      rw [hr, Option.some_or] at hs
      cases hs
      have hr' := hshort r List.mem_concat_self
      cases r with
      | hset k f value =>
        rw [storesField] at hr
        split at hr
        · cases hr
          exact hr' _ (by simp [Request.args])
        · cases hr
      | _ => cases hr

/-- What the server holds after a command. -/
theorem lookup_next (srv : RedisServer) (r : Request) (key : Bytes) :
    (next srv r).kv.lookup key = match stores key r with
      | some v => v
      | none => srv.kv.lookup key := by
  cases r with
  | set k value expireSeconds =>
    rw [stores]
    by_cases hk : k = key
    · subst hk
      rw [if_pos rfl]
      exact AList.lookup_insert _
    · rw [if_neg hk]
      exact AList.lookup_insert_ne (Ne.symm hk)
  | del k =>
    rw [stores]
    by_cases hk : k = key
    · subst hk
      rw [if_pos rfl]
      exact AList.lookup_erase _ _
    · rw [if_neg hk]
      exact AList.lookup_erase_ne (Ne.symm hk)
  | _ => rfl

theorem lookup_next_field (srv : RedisServer) (r : Request) (key field : Bytes) :
    (((next srv r).hashes.lookup key).getD ∅).lookup field =
      (storesField key field r).or (((srv.hashes.lookup key).getD ∅).lookup field) := by
  cases r with
  | hset k f value =>
    rw [storesField, next]
    by_cases hk : k = key
    · subst hk
      rw [AList.lookup_insert, Option.getD_some]
      by_cases hf : f = field
      · subst hf
        rw [AList.lookup_insert, if_pos ⟨rfl, rfl⟩, Option.some_or]
      · rw [AList.lookup_insert_ne (Ne.symm hf), if_neg fun h => hf h.2, Option.none_or]
    · rw [AList.lookup_insert_ne (Ne.symm hk), if_neg fun h => hk h.1, Option.none_or]
  | _ => rfl

theorem sendCommand_faithful (c : RedisConnection) (args : List Bytes) (replies : Bytes) :
    ∃ c', (faithful c (wire args) replies).sendCommand args = (true, c') ∧
      c'.arrivals = c.arrivals ++ replies.map some := by
  unfold RedisConnection.sendCommand RedisConnection.connect
  cases hconnected : c.connected with
  | true =>
    exact ⟨{ faithful c (wire args) replies with sends := [] }, by simp [faithful, hconnected], rfl⟩
  | false =>
    exact ⟨{ faithful c (wire args) replies with connected := true, connects := [], sends := [] },
      by simp [faithful, hconnected], rfl⟩

/-- **One command** is answered as it should be, and keeps the two ends in step.  The arguments
arrive as they were sent, the maps of the server change as the command says, and the reply is read
to its last byte. -/
theorem issue_inStep {before : List Request} {l : Link} (h : InStep before l) {r : Request}
    (hshort : Short r) : ∃ l', l.issue r = some (expected before r, l') ∧
      InStep (before ++ [r]) l' := by
  obtain ⟨c, hsend, harrivals⟩ := sendCommand_faithful l.conn r.args (reply l.server r)
  rw [h.consumed, List.nil_append] at harrivals
  have hreceive := receive_reply l.server hshort
    (fun key s hs => length_stored h.short (h.kv key ▸ hs))
    (fun key field s hs => length_storedField h.short (h.hashes key field ▸ hs)) harrivals
  have hanswer : understood l.server r = expected before r := by
    cases r with
    | get key => rw [understood, expected, h.kv]
    | hget key field => rw [understood, expected, h.hashes]
    | _ => rfl
  refine ⟨⟨{ c with arrivals := [] }, next l.server r, []⟩, ?_, rfl, rfl, fun key => ?_,
    fun key field => ?_, fun r' hr' => ?_⟩
  · have hperform := Request.perform_eq r (faithful l.conn (wire r.args) (reply l.server r))
    rw [hsend] at hperform
    rw [Link.issue, h.parsed, List.nil_append, handleClient_wire l.server hshort, Option.map_some]
    simp only [hperform, hreceive, hanswer]
  · rw [lookup_next, stored_concat, h.kv]
  · rw [lookup_next_field, storedField_concat, h.hashes]
  · rcases List.mem_append.mp hr' with hr' | hr'
    · exact h.short r' hr'
    · cases List.mem_singleton.mp hr'
      exact hshort

theorem issueAll_inStep {before : List Request} {l : Link} (h : InStep before l)
    {requests : List Request} (hshort : ∀ r ∈ requests, Short r) :
    ∃ l', l.issueAll requests = some (expectedAll before requests, l') ∧
      InStep (before ++ requests) l' := by
  induction requests generalizing before l with
  | nil => exact ⟨l, rfl, (List.append_nil before).symm ▸ h⟩
  | cons r rs ih =>
    obtain ⟨l', hissue, hstep⟩ := issue_inStep h (hshort r List.mem_cons_self)
    obtain ⟨l'', hall, hsteps⟩ := ih hstep fun r' hr' => hshort r' (List.mem_cons_of_mem _ hr')
    rw [List.append_assoc] at hsteps
    refine ⟨l'', ?_, hsteps⟩
    rw [Link.issueAll, hissue, Option.bind_some]
    simp only [hall, Option.map_some]
    rfl

theorem inStep_start : InStep [] {} :=
  ⟨rfl, rfl, fun _ => rfl, fun _ _ => rfl, fun _ hr => by cases hr⟩

/-- **A session.**  The server parses exactly what is sent; every command is answered with the last
value set; after each of them the stream is read to its end in both directions.  The pieces in which
`recv` returns the bytes of a value make no difference. -/
theorem session (requests : List Request) (hshort : ∀ r ∈ requests, Short r) :
    (∀ r ∈ requests, ∀ rest, parseResp (wire r.args ++ rest) = .done r.args rest) ∧
    (∀ n, ∃ l, Link.issueAll (requests.take n) {} = some (expectedAll [] (requests.take n), l) ∧
      l.pending = [] ∧ l.conn.arrivals = []) ∧
    ∀ len arrivals out rest, RedisConnection.RecvLoop len arrivals out rest →
      RedisConnection.takeBytes len arrivals = (out, rest) := by
  refine ⟨fun r hr rest => RedisServer.parseResp_wire r.args (length_args r) (hshort r hr) rest,
    fun n => ?_, fun _ _ _ _ hloop => hloop.takeBytes_eq⟩
  · obtain ⟨l, hall, hstep⟩ := issueAll_inStep inStep_start
      fun r (hr : r ∈ requests.take n) => hshort r (List.mem_of_mem_take hr)
    exact ⟨l, hall, hstep.parsed, hstep.consumed⟩

/-- Keys and values that look like the protocol. -/
def sample : List Request :=
  [.set (ascii "$1\r\n") (ascii "*2\r\n") 60, .get (ascii "$1\r\n"), .hset [] [] (ascii "\r\n"),
    .hget [] [], .del (ascii "$1\r\n"), .get (ascii "$1\r\n"), .ping]

theorem session_sample : ∃ l, Link.issueAll sample {} = some ([.flag true,
    .value (.ok (some (ascii "*2\r\n"))), .flag true, .value (.ok (some (ascii "\r\n"))),
    .flag true, .value (.ok none), .flag true], l) ∧ l.conn.arrivals = [] := by
  have hshort : ∀ r ∈ sample, ∀ arg ∈ r.args, arg.length < 2 ^ 31 := by decide
  obtain ⟨-, hall, -⟩ := session sample hshort
  obtain ⟨l, hanswers, -, hconsumed⟩ := hall 7
  exact ⟨l, hanswers, hconsumed⟩

end RedisSession
end MultiPlayerGame
