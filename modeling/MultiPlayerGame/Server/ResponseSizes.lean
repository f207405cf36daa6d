import MultiPlayerGame.Json.Sizes
import MultiPlayerGame.Server.Serving

/-!
# How long responses are

The texts of most responses are made from a few numerals and texts of the server's own, and are
short (`Short`).  Three kinds are not bounded in this way: an error that repeats what the client has
sent, whose length is `length_errorResponse`; the answer to a chat message, which repeats a message
that has been checked; and the state, whose length is that of all players and the last events
together (`length_state`).

## Why lengths are computed and not bounded

Whether a response fits a frame is a matter of single bytes.  So the length of a response is an
equation wherever it can be: the length of an object is the lengths of its keys and values and a
fixed number of bytes for each field (`Json.length_obj`), and does not depend on the order in which
the fields are assigned as long as the keys are distinct.  `length_state` adds up the entries of the
players and of the last events in this way.  Only for responses that are far below the limit is
there an inequality, with `Few` and `ShortValue` as its two parts: few keys, and no long value among
what they are set to.

`decode_cases` turns to the payload.  Whatever it says, it is refused with a text of the server's
own, or refused with a text that repeats its action, or it is a request all of whose texts have been
checked.  The check of a chat message is made on the low 32 bits of its length, and
`length_le_of_toInt32` is where it matters that no payload has 2^31 bytes.
-/

namespace MultiPlayerGame

open Bytes (ascii decimal digits)
open Json (obj int keysLength valuesLength initLength fieldLength listed escapedLength length_obj
  length_obj_le length_quote quote)
open RequestHandler

/-! ## Errors -/

theorem length_errorResponse (message : Bytes) :
    (errorResponse message).text.length = escapedLength message + 31 := by
  have hkeys : ["status", "message"] ≠ [] ∧ (["status", "message"].map ascii).Nodup := by decide
  have hlength : keysLength ["status", "message"] = 21 := by decide
  have hstatus : (quote (ascii "error")).length = 7 := by decide
  rw [errorResponse, length_obj hkeys rfl, hlength]
  simp only [List.map_cons, List.map_nil, valuesLength, List.sum_cons, List.sum_nil, Json.text,
    hstatus, length_quote]
  omega

/-! ## The state -/

/-- Two more fields. -/
theorem length_succeed {action : String} {fields : List (String × Json)} {keys : List String}
    (hkeys : keys ≠ [] ∧ (("action" :: "status" :: keys).map ascii).Nodup)
    (hfields : fields.map Prod.fst = keys) :
    (succeed action (obj fields)).text.length =
      1 + (keysLength ("action" :: "status" :: keys) + ((quote (ascii action)).length +
        (quote (ascii "ok")).length + valuesLength (fields.map Prod.snd))) := by
  obtain ⟨hne, hnodup⟩ := hkeys
  obtain ⟨haction, hnodup'⟩ := List.nodup_cons.mp hnodup
  obtain ⟨hstatus, hnodup''⟩ := List.nodup_cons.mp hnodup'
  have hobj := length_obj ⟨hne, hnodup''⟩ hfields
  rcases fields with _ | ⟨f, rest⟩
  · exact absurd hfields.symm hne
  have habsent : ∀ key : Bytes, key ∉ keys.map ascii →
      Json.findField key (Json.initFields (f :: rest)) = none := fun key hkey => by
    rw [← hfields, List.map_map] at hkey
    exact Json.field?_obj_of_notMem hkey
  have hfirst := Json.length_set (Json.initFields_ne_nil f rest) (habsent _ hstatus)
    (.string (ascii "ok"))
  have hboth : Json.findField (ascii "action")
      (Json.setField (ascii "status") (.string (ascii "ok")) (Json.initFields (f :: rest))) =
        none := by
    rw [Json.findField_setField, if_neg (by decide)]
    exact habsent _ fun h => haction (List.mem_cons_of_mem _ h)
  have hsecond := Json.length_set (Json.setField_ne_nil _ _ _) hboth (.string (ascii action))
  rw [← Json.obj_eq, hobj] at hfirst
  calc (succeed action (obj (f :: rest))).text.length
      = fieldLength (ascii "action", .string (ascii action)) +
          (fieldLength (ascii "status", .string (ascii "ok")) +
            (1 + (keysLength keys + valuesLength ((f :: rest).map Prod.snd)))) :=
        hsecond.trans (congrArg _ hfirst)
    _ = _ := by
        simp only [fieldLength, keysLength, List.map_cons, List.sum_cons, Json.text]
        omega

section State

variable (fp : Doubles) (now : Nat → Int)

/-- The fields of the entry of a player. -/
def playerKeys : List String := ["player_id", "x", "y", "health", "score", "kills", "session_s"]

/-- The fields of the entry of an event. -/
def eventKeys : List String := ["event_id", "player_id", "event_type", "data"]

/-- The fields of a snapshot. -/
def snapshotKeys : List String :=
  ["match_status", "elapsed_seconds", "player_count", "total_kills", "total_events", "players",
    "recent_events"]

theorem playerKeys_distinct : playerKeys ≠ [] ∧ (playerKeys.map ascii).Nodup := by decide

theorem eventKeys_distinct : eventKeys ≠ [] ∧ (eventKeys.map ascii).Nodup := by decide

theorem snapshotKeys_distinct :
    snapshotKeys ≠ [] ∧ (("action" :: "status" :: snapshotKeys).map ascii).Nodup := by decide

/-- What the entry of a player takes. -/
def playerLength (now : Int) (p : PlayerState) : Nat :=
  1 + keysLength playerKeys +
    ((toString p.playerId).length + (toString p.x).length + (toString p.y).length +
      (toString p.health).length + (toString p.score).length + (toString p.kills).length +
      (fp.seconds (now - p.joinedAt)).length)

/-- What the entry of an event takes. -/
def eventLength (ev : GameEvent) : Nat :=
  1 + keysLength eventKeys +
    ((digits ev.eventId).length + (toString ev.playerId).length + (quote ev.eventType).length +
      (quote ev.data).length)

/-- What the answer to `GET_STATE` takes, if the clock shows `now`. -/
def stateLength (g : GameState) : Nat :=
  1 + keysLength ("action" :: "status" :: snapshotKeys) +
    ((quote (ascii "GET_STATE")).length + (quote (ascii "ok")).length +
      (quote g.matchStatusString).length +
      (fp.seconds (now g.players.size - g.matchStart)).length +
      (toString (Json.toInt32 g.players.size)).length + (digits g.totalKills).length +
      (digits g.totalEvents).length +
      listed (g.players.entries.mapIdx fun i e => playerLength fp (now i) e.2) +
      listed ((g.recentEvents 5).map eventLength))

theorem length_playerJson (now : Int) (p : PlayerState) :
    (GameState.playerJson fp now p).text.length = playerLength fp now p := by
  rw [GameState.playerJson, playerLength, length_obj playerKeys_distinct rfl]
  simp only [List.map_cons, List.map_nil, valuesLength, List.sum_cons, List.sum_nil, Json.text, int,
    toString]
  omega

theorem length_eventJson (ev : GameEvent) :
    (GameState.eventJson ev).text.length = eventLength ev := by
  rw [GameState.eventJson, eventLength, length_obj eventKeys_distinct rfl]
  simp only [List.map_cons, List.map_nil, valuesLength, List.sum_cons, List.sum_nil, Json.text, int,
    toString, decimal]
  omega

theorem length_state (g : GameState) :
    (succeed "GET_STATE" (g.snapshot fp now)).text.length = stateLength fp now g := by
  rw [GameState.snapshot, stateLength, length_succeed snapshotKeys_distinct rfl]
  have hplayers : (g.players.entries.mapIdx fun i e => GameState.playerJson fp (now i) e.2).map
      (·.text.length) = g.players.entries.mapIdx fun i e => playerLength fp (now i) e.2 := by
    rw [List.mapIdx_eq_zipIdx_map, List.mapIdx_eq_zipIdx_map, List.map_map]
    exact List.map_congr_left fun e _ => length_playerJson fp _ _
  have hevents : ((g.recentEvents 5).map GameState.eventJson).map (·.text.length) =
      (g.recentEvents 5).map eventLength := by
    rw [List.map_map]
    exact List.map_congr_left fun ev _ => length_eventJson ev
  simp only [List.map_cons, List.map_nil, valuesLength, List.sum_cons, List.sum_nil,
    Json.length_array, hplayers, hevents]
  simp only [Json.text, int, toString, decimal]
  omega

end State

/-! ## Short responses -/

/-- A bound that is kept by all responses but the three kinds above. -/
def Short (j : Json) : Prop := j.text.length ≤ 2 ^ 14

/-- A value that a short response may have in it. -/
def ShortValue (v : Json) : Prop := v.text.length ≤ 1600

theorem length_toString_le (n : Int32) : (toString n).length ≤ 11 := Json.length_int_le n

theorem shortValue_int (n : Int32) : ShortValue (int n) :=
  (Json.length_int_le n).trans (by decide)

theorem shortValue_string {s : Bytes} (hs : s.length ≤ 256) : ShortValue (.string s) := by
  have hquote := length_quote s
  have hescaped := Json.escapedLength_le s
  show (quote s).length ≤ 1600
  omega

theorem shortValue_ok : ShortValue (.string (ascii "ok")) := shortValue_string (by decide)

/-- A numeral in the middle of a text. -/
theorem length_around_le {s t : Bytes} (h : s.length + t.length ≤ 60) (n : Int32) :
    (s ++ toString n ++ t).length ≤ 71 := by
  have hn := length_toString_le n
  rw [List.length_append, List.length_append]
  omega

theorem short_errorResponse {message : Bytes} (h : message.length ≤ 100) :
    Short (errorResponse message) := by
  have hescaped := Json.escapedLength_le message
  rw [Short, length_errorResponse]
  omega

theorem valuesLength_le {values : List Json} (h : ∀ v ∈ values, ShortValue v) :
    valuesLength values ≤ values.length * 1600 := by
  induction values with
  | nil => exact Nat.le_refl 0
  | cons v rest ih =>
    have hv : v.text.length ≤ 1600 := h v List.mem_cons_self
    have hrest := ih fun w hw => h w (List.mem_cons_of_mem _ hw)
    rw [valuesLength] at hrest
    rw [valuesLength, List.map_cons, List.sum_cons, List.length_cons]
    omega

/-- Keys that a short response may have. -/
abbrev Few (keys : List String) : Prop := keys ≠ [] ∧ keysLength keys ≤ 200 ∧ keys.length ≤ 8

/-- An object with few fields, all of them short. -/
theorem short_obj {fields : List (String × Json)} {keys : List String} (hkeys : Few keys)
    (hfields : fields.map Prod.fst = keys) (hvalues : ∀ v ∈ fields.map Prod.snd, ShortValue v) :
    (obj fields).text.length ≤ 13001 := by
  obtain ⟨hne, hlength, hfew⟩ := hkeys
  have hvalues := valuesLength_le hvalues
  have hsame : (fields.map Prod.snd).length = keys.length := by
    rw [← hfields, List.length_map, List.length_map]
  rcases fields with _ | ⟨f, rest⟩
  · exact absurd hfields.symm hne
  have hobj := length_obj_le f rest
  rw [initLength, hfields] at hobj
  omega

/-! ### Commands -/

theorem short_joinResponse (playerId : Int32) : Short (joinResponse playerId) := by
  have hmessage : (ascii "Player " ++ toString playerId ++ ascii " joined the game").length ≤ 71 :=
    length_around_le (by decide) playerId
  have hkeys :
      Few ["status", "action", "player_id", "x", "y", "health", "score", "message"] := by decide
  refine (short_obj hkeys rfl ?_).trans (by decide : 13001 ≤ 2 ^ 14)
  simp only [List.map_cons, List.map_nil, List.forall_mem_cons]
  exact ⟨shortValue_ok, shortValue_string (by decide), shortValue_int _, shortValue_int _,
    shortValue_int _, shortValue_int _, shortValue_int _,
    shortValue_string (hmessage.trans (by decide)), List.forall_mem_nil _⟩

theorem short_moveResponse (playerId x y : Int32) : Short (moveResponse playerId x y) := by
  have hkeys : Few ["status", "action", "player_id", "x", "y"] := by decide
  refine (short_obj hkeys rfl ?_).trans (by decide : 13001 ≤ 2 ^ 14)
  simp only [List.map_cons, List.map_nil, List.forall_mem_cons]
  exact ⟨shortValue_ok, shortValue_string (by decide), shortValue_int _, shortValue_int _,
    shortValue_int _, List.forall_mem_nil _⟩

theorem short_attackResponse (playerId targetId : Int32) (result : AttackResult) :
    Short (attackResponse playerId targetId result) := by
  have hkeys : Few ["status", "action", "attacker_id", "target_id", "damage", "target_health",
    "attacker_score"] := by decide
  have hresp : (obj [("status", .string (ascii "ok")), ("action", .string (ascii "ATTACK")),
      ("attacker_id", int playerId), ("target_id", int targetId), ("damage", int result.damage),
      ("target_health", int result.targetHealthAfter),
      ("attacker_score", int result.attackerScore)]).text.length ≤ 13001 := by
    refine short_obj hkeys rfl ?_
    simp only [List.map_cons, List.map_nil, List.forall_mem_cons]
    exact ⟨shortValue_ok, shortValue_string (by decide), shortValue_int _, shortValue_int _,
      shortValue_int _, shortValue_int _, shortValue_int _, List.forall_mem_nil _⟩
  have hfield : fieldLength (ascii "eliminated", .boolean true) = 18 := by decide
  rw [Short, attackResponse]
  split
  · refine (Json.length_obj_set_le _ _ _ _).trans ?_
    rw [hfield]
    omega
  · exact hresp.trans (by decide)

theorem short_chatResponse (playerId : Int32) {message : Bytes} (h : message.length ≤ 256) :
    Short (chatResponse playerId message) := by
  have hkeys : Few ["status", "action", "player_id", "message"] := by decide
  refine (short_obj hkeys rfl ?_).trans (by decide : 13001 ≤ 2 ^ 14)
  simp only [List.map_cons, List.map_nil, List.forall_mem_cons]
  exact ⟨shortValue_ok, shortValue_string (by decide), shortValue_int _, shortValue_string h,
    List.forall_mem_nil _⟩

theorem short_updateScoreResponse (playerId score : Int32) :
    Short (updateScoreResponse playerId score) := by
  have hkeys : Few ["status", "action", "player_id", "score"] := by decide
  refine (short_obj hkeys rfl ?_).trans (by decide : 13001 ≤ 2 ^ 14)
  simp only [List.map_cons, List.map_nil, List.forall_mem_cons]
  exact ⟨shortValue_ok, shortValue_string (by decide), shortValue_int _, shortValue_int _,
    List.forall_mem_nil _⟩

theorem short_leaveResponse (playerId finalScore : Int32) :
    Short (leaveResponse playerId finalScore) := by
  have hmessage : (ascii "Player " ++ toString playerId ++ ascii " left the game").length ≤ 71 :=
    length_around_le (by decide) playerId
  have hkeys : Few ["status", "action", "player_id", "final_score", "message"] := by decide
  refine (short_obj hkeys rfl ?_).trans (by decide : 13001 ≤ 2 ^ 14)
  simp only [List.map_cons, List.map_nil, List.forall_mem_cons]
  exact ⟨shortValue_ok, shortValue_string (by decide), shortValue_int _, shortValue_int _,
    shortValue_string (hmessage.trans (by decide)), List.forall_mem_nil _⟩

/-- The text that a chat message repeats is short. -/
def Command.Modest : Command → Prop
  | .chat _ message => message.length ≤ 256
  | _ => True

/-- **A command that is carried out has a short response.**  Its numbers have 32 bits, and the one
text of a client in it has been checked. -/
theorem Command.short_of_apply {now : Nat → Int} {g : GameState} {c : Command} (hc : c.Modest)
    {out : (Bytes × Json) × GameState} (h : c.apply now g = .ok out) : Short out.1.2 := by
  cases c with
  | join playerId =>
    obtain ⟨r, -, rfl⟩ := map_eq_ok h
    exact short_joinResponse playerId
  | move playerId x y =>
    obtain ⟨r, -, rfl⟩ := map_eq_ok h
    exact short_moveResponse playerId _ _
  | attack playerId targetId =>
    obtain ⟨r, -, rfl⟩ := map_eq_ok h
    exact short_attackResponse playerId targetId r.1
  | chat playerId message =>
    rw [apply] at h
    split at h
    · cases h
      exact short_chatResponse playerId hc
    · cases h
  | updateScore playerId score =>
    obtain ⟨r, -, rfl⟩ := map_eq_ok h
    exact short_updateScoreResponse playerId score
  | leave playerId =>
    obtain ⟨r, -, rfl⟩ := map_eq_ok h
    exact short_leaveResponse playerId r.1

theorem length_notInGame_le (playerId : Int32) : (GameState.notInGame playerId).length ≤ 100 :=
  (length_around_le (by decide) playerId).trans (by decide)

theorem length_refusal_le {err : Bytes} (h : GameState.Refusal err) : err.length ≤ 100 := by
  cases h with
  | present playerId => exact (length_around_le (by decide) playerId).trans (by decide)
  | absent playerId => exact length_notInGame_le playerId
  | oneself => decide
  | noAttacker playerId => exact (length_around_le (by decide) playerId).trans (by decide)
  | noTarget playerId => exact (length_around_le (by decide) playerId).trans (by decide)

/-- **A command that is refused is refused with a short text.**  The texts of the refusals have one
numeral in them at most. -/
theorem Command.length_of_apply {now : Nat → Int} {g : GameState} {c : Command} {err : Bytes}
    (h : c.apply now g = .error err) : err.length ≤ 100 := by
  cases c with
  | join => exact length_refusal_le (GameState.addPlayer_refusal (map_eq_error h))
  | move => exact length_refusal_le (GameState.modifyPlayer_refusal (map_eq_error h))
  | attack => exact length_refusal_le (GameState.attackPlayer_refusal (map_eq_error h))
  | chat playerId message =>
    rw [apply] at h
    split at h
    · cases h
    · cases h
      exact length_notInGame_le playerId
  | updateScore => exact length_refusal_le (GameState.modifyPlayer_refusal (map_eq_error h))
  | leave => exact length_refusal_le (GameState.removePlayer_refusal (map_eq_error h))

/-! ### The metrics -/

/-- The counters have at most 20 digits. -/
def MetricsRegistry.Fits (m : MetricsRegistry) : Prop := ∀ c, m.counters c < 10 ^ 20

/-- The fields of the dump of the metrics. -/
def metricsKeys : List String :=
  ["active_players", "requests_total", "successful_requests", "failed_requests", "avg_latency_ms",
    "redis_cache_hits", "redis_cache_misses", "database_operations"]

theorem metricsKeys_distinct :
    metricsKeys ≠ [] ∧ (("action" :: "status" :: metricsKeys).map ascii).Nodup := by decide

section Metrics

variable {fp : Doubles} {w w' : World} {m : Json}

theorem shortValue_integer {n : Nat} (hn : n < 10 ^ 20) : ShortValue (.integer n) :=
  (Json.length_integer_le hn).trans (by decide)

theorem short_exported {total count successful failed hits misses operations : Nat}
    {sum : List Int} {activePlayers : Int32} (htotal : total < 10 ^ 20)
    (hsuccessful : successful < 10 ^ 20) (hfailed : failed < 10 ^ 20) (hhits : hits < 10 ^ 20)
    (hmisses : misses < 10 ^ 20) (hoperations : operations < 10 ^ 20) :
    Short (succeed "GET_METRICS" (MetricsRegistry.exported fp total count sum activePlayers
      successful failed hits misses operations)) := by
  have hlength : keysLength ("action" :: "status" :: metricsKeys) ≤ 300 := by decide
  have haverage :
      ShortValue (.float (if 0 < count then fp.averageMs sum count else ascii "0.0")) := by
    show (if 0 < count then fp.averageMs sum count else ascii "0.0").length ≤ 1600
    split
    · exact (fp.length_averageMs_le sum count).trans (by decide)
    · decide
  have hstatus : (quote (ascii "GET_METRICS")).length + (quote (ascii "ok")).length = 17 := by
    decide
  rw [Short, MetricsRegistry.exported, length_succeed metricsKeys_distinct rfl, hstatus]
  have hall : ∀ v ∈ [int activePlayers, .integer total, .integer successful, .integer failed,
      .float (if 0 < count then fp.averageMs sum count else ascii "0.0"), .integer hits,
      .integer misses, .integer operations], ShortValue v := by
    simp only [List.forall_mem_cons]
    exact ⟨shortValue_int _, shortValue_integer htotal, shortValue_integer hsuccessful,
      shortValue_integer hfailed, haverage, shortValue_integer hhits, shortValue_integer hmisses,
      shortValue_integer hoperations, List.forall_mem_nil _⟩
  have hvalues := valuesLength_le hall
  simp only [List.length_cons, List.length_nil] at hvalues
  simp only [List.map_cons, List.map_nil]
  omega

/-- **The dump of the metrics is short.**  It has a fixed number of fields, and its counters have 20
digits at most. -/
theorem short_of_toJson (hw : w.metrics.Fits)
    (h : Program.Runs (Call.exec fp) (MetricsRegistry.toJson fp) w m w') :
    Short (succeed "GET_METRICS" m) := by
  obtain ⟨_, h⟩ := Program.runs_call.mp h
  obtain ⟨_, h⟩ := Program.runs_call.mp h
  obtain ⟨_, h⟩ := Program.runs_call.mp h
  obtain ⟨_, h⟩ := Program.runs_call.mp h
  obtain ⟨_, h⟩ := Program.runs_call.mp h
  obtain ⟨_, h⟩ := Program.runs_call.mp h
  obtain ⟨_, h⟩ := Program.runs_call.mp h
  obtain ⟨_, h⟩ := Program.runs_call.mp h
  obtain ⟨_, h⟩ := Program.runs_call.mp h
  obtain ⟨rfl, -⟩ := Program.runs_ret.mp h
  exact short_exported (hw _) (hw _) (hw _) (hw _) (hw _) (hw _)

end Metrics

/-! ## What a payload leads to -/

/-- The action of a payload, if there is no handler for it. -/
def Request.unknown? (rawJson : Bytes) : Option Bytes :=
  match Parser.parse rawJson with
  | none => none
  | some req =>
    match (req.field? (ascii "action")).bind getString with
    | none => none
    | some action =>
      match Action.ofName? action with
      | none => some action
      | some _ => none

/-- The texts of the server's own that a request is refused with are short, and so is a chat message
that is let through. -/
def Request.Modest : Request → Prop
  | .refused message => message.length ≤ 100
  | .command c => c.Modest
  | _ => True

theorem modest_check {α : Type} {r : Except Bytes α} {next : α → Request}
    (herr : ∀ err, r = .error err → err.length ≤ 100) (hnext : ∀ a, r = .ok a → (next a).Modest) :
    (Request.check r next).Modest := by
  cases r with
  | error err => exact herr err rfl
  | ok a => exact hnext a rfl

theorem length_of_requireField {α : Type} {what key : String} {get : Json → Option α} {j : Json}
    {err : Bytes} (hlength : (ascii what).length + (ascii key).length ≤ 60)
    (h : requireField what get j key = .error err) : err.length ≤ 100 := by
  have hmissing : (ascii "missing required field: '").length = 25 := by decide
  have hfield : (ascii "field '").length = 7 := by decide
  have hmust : (ascii "' must be ").length = 10 := by decide
  have hquote : (ascii "'").length = 1 := by decide
  unfold requireField at h
  split at h
  · cases h
    rw [List.length_append, List.length_append, hmissing, hquote]
    omega
  · split at h
    · cases h
      rw [List.length_append, List.length_append, List.length_append, hfield, hmust]
      omega
    · cases h

/-- A string of a payload that is not enormous is not cut off by the cast of its length. -/
theorem length_le_of_toInt32 {message : Bytes} (hlength : message.length < 2 ^ 31)
    (h : ¬ Json.toInt32 message.length > GameState.maxChatLen) : message.length ≤ 256 := by
  have hmax : GameState.maxChatLen.toInt = 256 := by decide
  have hcast : (Json.toInt32 message.length).toInt = message.length := by
    rw [Json.toInt32, Int32.toInt_ofInt_of_le (by omega) (by omega)]
  have hle := Int32.le_iff_toInt_le.mp (Int32.not_lt.mp h)
  rw [hmax, hcast] at hle
  omega

/-- A string that was parsed is no longer than the payload. -/
theorem length_of_field {n : Nat} {req : Json}
    (hreq : req.every (fun k => decide (k.length ≤ n)) (fun _ => true) (fun _ => true) = true)
    {key k : Bytes} (h : (req.field? key).bind getString = some k) : k.length ≤ n := by
  obtain ⟨v, hv, hk⟩ := Option.bind_eq_some_iff.mp h
  have hevery := Json.every_of_field? hreq hv
  cases v with
  | string t =>
    cases hk
    exact of_decide_eq_true hevery
  | _ => cases hk

theorem length_of_requireString {n : Nat} {req : Json}
    (hreq : req.every (fun k => decide (k.length ≤ n)) (fun _ => true) (fun _ => true) = true)
    {key : String} {k : Bytes} (h : requireString req key = .ok k) : k.length ≤ n :=
  length_of_field hreq (field_of_requireString h)

theorem modest_ofAction {n : Nat} (hn : n < 2 ^ 31) {req : Json}
    (hreq : req.every (fun k => decide (k.length ≤ n)) (fun _ => true) (fun _ => true) = true)
    (a : Action) : (Request.ofAction req a).Modest := by
  have hint : ∀ {key : String} {next : Int32 → Request},
      (ascii "an integer").length + (ascii key).length ≤ 60 → (∀ k, (next k).Modest) →
      (Request.check (requireInt req key) next).Modest :=
    fun hkey hnext => modest_check (fun _ => length_of_requireField hkey) fun k _ => hnext k
  have hid : (ascii "an integer").length + (ascii "player_id").length ≤ 60 := by decide
  cases a with
  | join => exact hint hid fun _ => trivial
  | leave => exact hint hid fun _ => trivial
  | move => exact hint hid fun _ => hint (by decide) fun _ => hint (by decide) fun _ => trivial
  | attack => exact hint hid fun _ => hint (by decide) fun _ => trivial
  | chat =>
    refine hint hid fun _ => modest_check (fun _ h => length_of_requireField (by decide) h)
      fun message hmessage => ?_
    split
    · exact (by decide : (ascii "message cannot be empty").length ≤ 100)
    split
    · exact (length_around_le (by decide) _).trans (by decide)
    · rename_i hlong
      exact length_le_of_toInt32 ((length_of_requireString hreq hmessage).trans_lt hn) hlong
  | updateScore =>
    refine hint hid fun _ => hint (by decide) fun score => ?_
    split
    · exact (by decide : (ascii "score cannot be negative").length ≤ 100)
    · trivial
  | getState => trivial
  | getMetrics => trivial

/-- **A request is modest, or refused with a text of the client's.**  The second case is that of an
unknown action, which the error repeats. -/
theorem decode_cases {rawJson : Bytes} (hlength : rawJson.length < 2 ^ 31) :
    (Request.unknown? rawJson = none ∧ (Request.decode rawJson).Modest) ∨
      ∃ action, Request.unknown? rawJson = some action ∧
        Request.decode rawJson = .refused (ascii "unknown action: " ++ action) := by
  unfold Request.unknown? Request.decode
  rcases hparse : Parser.parse rawJson with _ | req
  · exact Or.inl ⟨rfl, (by decide : (ascii "invalid JSON").length ≤ 100)⟩
  simp only
  rcases (req.field? (ascii "action")).bind getString with _ | action
  · exact Or.inl ⟨rfl, (by decide : (ascii "missing action").length ≤ 100)⟩
  simp only
  rcases Action.ofName? action with _ | a
  · exact Or.inr ⟨action, rfl, rfl⟩
  · exact Or.inl ⟨rfl, modest_ofAction hlength (Parser.parse_short hparse) a⟩

end MultiPlayerGame
