import MultiPlayerGame.Results.Cache
import MultiPlayerGame.Results.StaleReplies

/-!
# Do the commands notice that Redis has refused them?

Redis answers a command that it does not carry out with an error, a line that begins with `-`.  The
commands look at the reply in three ways: `ping` and `set` compare the line, `get`, `hget` and
`hgetall` look at the type byte, and `del` and `hset` are content with any line.

So all but the last two report success only if there was no error (`not_success_of_error`), and
those two never notice one.  Through `del`, `deletePlayerSession` does not either: `reports_iff`.

## Why two commands never notice

An error is a line, and so is the reply to `DEL` and to `HSET`.  These two commands read a line and
return `true` if there was one.  For the other three kinds of commands there is something in the
reply that an error does not have: the text of the line, or the type byte.

The reply may come in pieces, some of which may be lost, and a `recv` may fail.  None of this can
turn an error into a success, because a command that reports success has read at least the first
byte of the reply (`head_of_readLine`, `type_of_received`), and that is a `-`.  The other direction
asks for one network over which the command succeeds, which is the one that delivers the reply
whole.
-/

namespace MultiPlayerGame
namespace RefusedWrites

open Bytes (ascii)
open Program (RunsWhere)
open RedisConnection (takeBytes takeLine received wire)
open StaleReplies (Resp arriving delivers sendCommand_cases)
open Cache (Update)

/-- Does the command return `true`? -/
def success : Redis.Answer → Bool
  | .flag ok => ok
  | .value (.ok (some _)) => true
  | .table (.ok (ok, _)) => ok
  | _ => false

/-- Redis has refused the command.  The reply is a line that begins with a minus sign. -/
def IsError (reply : Resp) : Prop := reply.type = 0x2D

/-- The command is content with any line.  These are the commands whose reader asks for a line and
does not look at it. -/
def AcceptsAnyLine : Redis.Request → Prop
  | .del _ | .hset .. => True
  | _ => False

/-- The command may return `true` over a connection to which the reply comes: at once or in pieces,
with `recv`s that fail in between, and with whatever behind it. -/
def Reports (r : Redis.Request) (reply : Resp) : Prop :=
  ∃ c, reply.bytes <+: arriving c.arrivals ∧ success (r.perform c).1 = true

/-- The call of the cache may return `true` if the reply comes to its command. -/
def CacheReports (fp : Doubles) (u : Update) (reply : Resp) : Prop :=
  ∃ w w', RunsWhere (fun _ e _ => reply.bytes <+: arriving e.net.arrivals) (Call.exec fp)
    u.handler w (.ok true) w'

/-! ## Reading an error -/

section Reading

variable {c : RedisConnection} {reply : Resp} {b : UInt8} {arrivals : List (Option UInt8)}

/-- The first byte of a reply that comes, or a `recv` that fails before. -/
theorem head_of_prefix (h : reply.bytes <+: arriving arrivals) :
    (∃ later, arrivals = none :: later) ∨ ∃ later, arrivals = some reply.type :: later := by
  obtain ⟨more, hmore⟩ := h
  rcases arrivals with _ | ⟨_ | b, later⟩
  · cases hmore
  · exact Or.inl ⟨later, rfl⟩
  · refine Or.inr ⟨later, ?_⟩
    have hhead : reply.type = b := List.head_eq_of_cons_eq hmore
    rw [hhead]

/-- A line that is read begins with the first byte of the reply. -/
theorem head_of_readLine {line : Bytes} (hb : b ≠ 0x0D)
    (h : (∃ later, c.arrivals = none :: later) ∨ ∃ later, c.arrivals = some b :: later)
    (hline : c.readLine.1 = some line) : line.head? = some b := by
  rw [c.readLine_eq.1] at hline
  rcases h with ⟨later, harrivals⟩ | ⟨later, harrivals⟩
  · rw [harrivals] at hline
    cases hline
  · rw [harrivals, RedisConnection.takeLine_byte hb] at hline
    obtain ⟨l, hl, -, -⟩ := RedisConnection.line_of_takeLine (Prod.ext hline rfl)
    rw [hl]
    rfl

/-- So is a type byte. -/
theorem type_of_received {type : Bytes} {c' : RedisConnection}
    (h : (∃ later, c.arrivals = none :: later) ∨ ∃ later, c.arrivals = some b :: later)
    (htype : received (takeBytes 1 c.arrivals) c = (some type, c')) : type = [b] := by
  rcases h with ⟨later, harrivals⟩ | ⟨later, harrivals⟩
  · rw [harrivals] at htype
    cases htype
  · rw [harrivals] at htype
    cases htype
    rfl

/-- **The commands that look at the reply notice an error.**  They look at the first byte at least,
and have read it if they return at all with success. -/
theorem receive_of_error {r : Redis.Request} (hr : ¬ AcceptsAnyLine r) (herror : IsError reply)
    (h : reply.bytes <+: arriving c.arrivals) : success (r.receive c).1 = false := by
  have hhead := head_of_prefix h
  rw [herror] at hhead
  have hline : ∀ {line : Bytes}, line.head? ≠ some 0x2D →
      decide (c.readLine.1 = some line) = false := fun hne =>
    decide_eq_false fun heq => hne (head_of_readLine (by decide) hhead heq)
  cases r with
  | ping =>
    simp only [Redis.Request.receive, success]
    rw [hline (by decide), hline (by decide)]
    rfl
  | set =>
    simp only [Redis.Request.receive, success]
    rw [hline (by decide), hline (by decide)]
    rfl
  | get | hget =>
    simp only [Redis.Request.receive]
    rcases hreceived : received (takeBytes 1 c.arrivals) c with ⟨_ | type, c'⟩
    · rfl
    · simp only
      rw [type_of_received hhead hreceived, if_neg (by decide)]
      rfl
  | hgetall =>
    simp only [Redis.Request.receive]
    rcases hreceived : received (takeBytes 1 c.arrivals) c with ⟨_ | type, c'⟩
    · rfl
    · simp only
      rw [type_of_received hhead hreceived, if_pos (by decide)]
      rfl
  | del | hset => exact absurd trivial hr

theorem success_unsent (r : Redis.Request) : success r.unsent = false := by
  cases r <;> rfl

theorem not_success_of_error {r : Redis.Request} (hr : ¬ AcceptsAnyLine r) (herror : IsError reply)
    (h : reply.bytes <+: arriving c.arrivals) : success (r.perform c).1 = false := by
  rw [Redis.Request.perform_eq]
  rcases hsent : c.sendCommand r.args with ⟨_ | _, c'⟩
  · exact success_unsent r
  · have harrivals : c'.arrivals = c.arrivals := by
      rcases sendCommand_cases r.args c with ⟨hfailed, -⟩ | ⟨-, harrivals⟩
      · rw [hsent] at hfailed
        cases hfailed
      · rw [hsent] at harrivals
        exact harrivals
    exact receive_of_error hr herror (harrivals ▸ h)

/-- A whole reply has a first line, without its line break. -/
theorem readLine_bytes (hwf : reply.WellFormed) (h : c.arrivals = reply.bytes.map some) :
    c.readLine.1 = some (reply.type :: reply.head) := by
  have harrivals : c.arrivals = (reply.type :: reply.head ++ ascii "\r\n").map some ++
      reply.body.map some := by
    rw [h, Resp.bytes, List.map_append]
  rw [RedisConnection.readLine_line (StaleReplies.cr_notMem_line hwf) harrivals]

theorem sendCommand_delivers (r : Redis.Request) (arrivals : List (Option UInt8)) :
    (delivers r arrivals).sendCommand r.args =
      (true, { delivers r arrivals with sends := [] }) := by
  simp [delivers, RedisConnection.sendCommand, RedisConnection.connect]

/-- **The others return `true` whatever the reply.**  A whole line has come, and they do not look
into it. -/
theorem success_of_acceptsAnyLine {r : Redis.Request} (hr : AcceptsAnyLine r)
    (hwf : reply.WellFormed) :
    success (r.perform (delivers r (reply.bytes.map some))).1 = true := by
  rw [Redis.Request.perform_eq, sendCommand_delivers]
  have hline := readLine_bytes (c := { delivers r (reply.bytes.map some) with sends := [] }) hwf rfl
  cases r with
  | del | hset =>
    simp only [Redis.Request.receive, success, hline]
    rfl
  | _ => exact hr.elim

end Reading

/-! ## Through the cache -/

section Cache

variable {fp : Doubles} {reply : Resp}

/-- The connection of the cache finds what arrives. -/
theorem arrivals_acquired {pool : RedisPool} {net : RedisConnection}
    (h : reply.bytes <+: arriving net.arrivals) :
    reply.bytes <+: arriving (pool.acquired net).arrivals := by
  rwa [(pool.acquired_fields net).2]

/-- Setting a key notices an error. -/
theorem exec_set_of_error {key value : Bytes} {expireSeconds : Nat} {e : Env} {w : World}
    (herror : IsError reply) (h : reply.bytes <+: arriving e.net.arrivals) :
    (Call.exec fp (.redis (.set key value expireSeconds)) e w).1 = false :=
  not_success_of_error (r := .set key value expireSeconds) not_false herror (arrivals_acquired h)

theorem not_cacheReports_of_error {u : Update} (hu : ∀ p, u ≠ .deletePlayerSession p)
    (herror : IsError reply) : ¬ CacheReports fp u reply := by
  rintro ⟨w, w', hruns⟩
  cases u with
  | deletePlayerSession p => exact hu p rfl
  | setPlayerSession p sessionData ttlSec =>
    rw [Update.handler, CacheManager.setPlayerSessionFor] at hruns
    split at hruns
    · cases hruns.ret_inv.1
    · obtain ⟨e, harrives, hrest⟩ := hruns.call_inv
      rw [exec_set_of_error herror harrives] at hrest
      cases hrest.ret_inv.1
  | setPlayerPosition p x y =>
    obtain ⟨e, harrives, hrest⟩ := hruns.call_inv
    rw [exec_set_of_error herror harrives] at hrest
    cases hrest.ret_inv.1

/-- **Deleting a session is reported whatever the reply.**  It passes on what `del` returns. -/
theorem cacheReports_delete (p : Int32) (hwf : reply.WellFormed) :
    CacheReports fp (.deletePlayerSession p) reply := by
  let r : Redis.Request := .del (CacheManager.sessionKey p)
  let w : World := { World.started with pool := ⟨[true]⟩ }
  let e : Env := { net := delivers r (reply.bytes.map some) }
  have hanswer : (Call.exec fp (.redis (.del (CacheManager.sessionKey p))) e w).1 = true :=
    success_of_acceptsAnyLine (r := r) trivial hwf
  have harrives : reply.bytes <+: arriving e.net.arrivals := by
    change reply.bytes <+: arriving (reply.bytes.map some)
    rw [StaleReplies.arriving_map]
  refine ⟨w, (Call.exec fp (.redis (.del (CacheManager.sessionKey p))) e w).2, ?_⟩
  refine .call _ _ e w _ _ harrives ?_
  rw [hanswer]
  exact .ret _ _

/-- **A command returns `true` only if there was no error, for every reply but an error to `del` or
`hset`**; and a call of the cache, for every reply but an error to `deletePlayerSession`. -/
theorem reports_iff (fp : Doubles) (hwf : reply.WellFormed) :
    (∀ r, (Reports r reply → ¬ IsError reply) ↔ ¬ (IsError reply ∧ AcceptsAnyLine r)) ∧
    ∀ u, (CacheReports fp u reply → ¬ IsError reply) ↔
      ¬ (IsError reply ∧ ∃ p, u = .deletePlayerSession p) := by
  refine ⟨fun r => ⟨?_, ?_⟩, fun u => ⟨?_, ?_⟩⟩
  · rintro hnotices ⟨herror, hr⟩
    refine hnotices ⟨_, ?_, success_of_acceptsAnyLine hr hwf⟩ herror
    change reply.bytes <+: arriving (reply.bytes.map some)
    rw [StaleReplies.arriving_map]
  · rintro hno ⟨c, harrives, hsuccess⟩ herror
    rw [not_success_of_error (fun hr => hno ⟨herror, hr⟩) herror harrives] at hsuccess
    cases hsuccess
  · rintro hnotices ⟨herror, p, rfl⟩
    exact hnotices (cacheReports_delete p hwf) herror
  · intro hno hreports herror
    exact not_cacheReports_of_error (fun p hp => hno ⟨herror, p, hp⟩) herror hreports

end Cache

/-- What a replica answers. -/
def readOnly : Resp := .error (ascii "READONLY You can't write against a read only replica.")

theorem readOnly_wellFormed : readOnly.WellFormed := by
  rw [readOnly, Resp.WellFormed]
  decide +kernel

/-- Setting a position on a replica is not reported. -/
theorem reports_iff_position : ¬ CacheReports .zero (.setPlayerPosition 7 1 2) readOnly :=
  fun hreports => ((reports_iff .zero readOnly_wellFormed).2 _).mpr
    (fun ⟨_, p, hp⟩ => by cases hp) hreports rfl

/-- **Deleting a session on a replica is.**  The replica answers that it is read-only, and the
session stays where it is. -/
theorem exists_refused : readOnly.WellFormed ∧ IsError readOnly ∧
    Reports (.del (CacheManager.sessionKey 7)) readOnly ∧
    CacheReports .zero (.deletePlayerSession 7) readOnly := by
  refine ⟨readOnly_wellFormed, rfl, ⟨delivers (.del (CacheManager.sessionKey 7))
    (readOnly.bytes.map some), ?_, ?_⟩, cacheReports_delete 7 readOnly_wellFormed⟩
  · change readOnly.bytes <+: arriving (readOnly.bytes.map some)
    rw [StaleReplies.arriving_map]
  · exact success_of_acceptsAnyLine (r := .del (CacheManager.sessionKey 7)) trivial
      readOnly_wellFormed

end RefusedWrites
end MultiPlayerGame
