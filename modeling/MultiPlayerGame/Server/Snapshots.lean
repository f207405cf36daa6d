import MultiPlayerGame.Server.Records

/-!
# Reading the answer to GET_STATE

A client sees the game through the JSON that `GET_STATE` answers.  `shownEntry` looks a player up in
it, by the `player_id` of the entries, and `playersOf`, `eventsOf` and `intField` read the rest.

`shownEntry_of_lookup` and `shownEntry_of_absent` say that the lookup finds what the players map
has, and `snapshot_of_stateAnswer` which answers there are.

## Why through the JSON

A statement about what clients see should not depend on what the server holds.  So the readers take
a `Json`, as a client would after parsing the answer, and look for fields by name.  The entries of
the players are searched by their field `player_id`, since the order of the entries is not fixed.
That the search finds the right entry needs `Keyed`: a record that carried a foreign id would be
shown as somebody else, and no client could tell.
-/

namespace MultiPlayerGame
namespace Snapshots

open Bytes (ascii)
open Json (obj int)
open Program (Runs)
open RequestHandler
open Records (Keyed)

/-- The number in a field. -/
def intField (j : Json) (key : String) : Option Int :=
  match j.field? (ascii key) with
  | some (.integer n) => some n
  | _ => none

/-- The elements of the array in a field. -/
def arrayField (j : Json) (key : String) : List Json :=
  match j.field? (ascii key) with
  | some (.array items) => items
  | _ => []

/-- The players in an answer to `GET_STATE`. -/
def playersOf (state : Json) : List Json := arrayField state "players"

/-- The entry of a player.  It is the first entry with the id of the player in its field
`player_id`. -/
def shownEntry (state : Json) (playerId : Int32) : Option Json :=
  (playersOf state).find? fun e => intField e "player_id" = some playerId.toInt

section Fields

variable {fp : Doubles} {now : Nat → Int} {g : GameState}

theorem field?_succeed {fields : List (String × Json)} {action key : String}
    (hstatus : ascii key ≠ ascii "status") (haction : ascii key ≠ ascii "action") :
    (succeed action (obj fields)).field? (ascii key) = (obj fields).field? (ascii key) := by
  have hset : ∀ (k : Bytes) (v : Json) (fs : List (Bytes × Json)), ascii key ≠ k →
      Json.findField (ascii key) (Json.setField k v fs) = Json.findField (ascii key) fs :=
    fun k v fs hk => by rw [Json.findField_setField, if_neg hk]
  change Json.findField (ascii key) (Json.setField _ _ (Json.setField _ _ _)) = _
  rw [hset _ _ _ haction, hset _ _ _ hstatus]
  rfl

theorem players_succeed : playersOf (succeed "GET_STATE" (g.snapshot fp now)) =
    g.players.entries.mapIdx fun i e => GameState.playerJson fp (now i) e.2 := by
  rw [playersOf, arrayField, GameState.snapshot, field?_succeed (by decide) (by decide)]
  simp +decide

theorem count_succeed : intField (succeed "GET_STATE" (g.snapshot fp now)) "player_count" =
    some (Json.toInt32 g.players.size).toInt := by
  rw [intField, GameState.snapshot, field?_succeed (by decide) (by decide)]
  simp +decide [int]

theorem kills_succeed : intField (succeed "GET_STATE" (g.snapshot fp now)) "total_kills" =
    some (g.totalKills : Int) := by
  rw [intField, GameState.snapshot, field?_succeed (by decide) (by decide)]
  simp +decide

end Fields

/-! ## The entry of a player -/

section Players

variable {fp : Doubles}

theorem id_playerJson (now : Int) (s : PlayerState) :
    intField (GameState.playerJson fp now s) "player_id" = some s.playerId.toInt := by
  simp [intField, GameState.playerJson, int]

/-- The first entry of a player is made from its record. -/
theorem find?_players (fp : Doubles) {l : List (Σ _ : Int32, PlayerState)}
    (hkeyed : ∀ e ∈ l, e.2.playerId = e.1) (now : Nat → Int) (p : Int32) :
    match l.dlookup p with
    | none => (l.mapIdx fun i e => GameState.playerJson fp (now i) e.2).find?
        (fun e => intField e "player_id" = some p.toInt) = none
    | some s => ∃ t, (l.mapIdx fun i e => GameState.playerJson fp (now i) e.2).find?
        (fun e => intField e "player_id" = some p.toInt) = some (GameState.playerJson fp t s) := by
  induction l generalizing now with
  | nil => rfl
  | cons e l ih =>
    obtain ⟨k, s⟩ := e
    have hk : s.playerId = k := hkeyed _ List.mem_cons_self
    rw [List.mapIdx_cons, List.find?_cons, id_playerJson, hk]
    by_cases hp : p = k
    · subst hp
      simp only [List.dlookup_cons_eq, decide_true]
      exact ⟨now 0, rfl⟩
    · have hne : decide (some k.toInt = some p.toInt) = false :=
        decide_eq_false fun h => hp (Int32.toInt_inj.mp (Option.some.inj h)).symm
      rw [List.dlookup_cons_ne _ _ hp, hne]
      exact ih (fun e he => hkeyed e (List.mem_cons_of_mem _ he)) fun i => now (i + 1)

variable {now : Nat → Int} {g : GameState}

theorem keyed_entries (hg : Keyed g) : ∀ e ∈ g.players.entries, e.2.playerId = e.1 :=
  fun e he => hg e.1 e.2 (KeyedMap.lookup_of_mem_entries he)

/-- **Looking a player up in the answer is looking it up in the players map.**  It finds the entry
that was made from the record of the player, for each record is kept under its own id. -/
theorem shownEntry_of_lookup (fp : Doubles) (now : Nat → Int) (hg : Keyed g) {p : Int32}
    {s : PlayerState} (hs : g.players.lookup p = some s) :
    ∃ t, shownEntry (succeed "GET_STATE" (g.snapshot fp now)) p =
      some (GameState.playerJson fp t s) := by
  have h := find?_players fp (keyed_entries hg) now p
  rw [AList.lookup] at hs
  rw [hs] at h
  rw [shownEntry, players_succeed]
  exact h

theorem shownEntry_of_absent (hg : Keyed g) {p : Int32} (hs : g.players.lookup p = none) :
    shownEntry (succeed "GET_STATE" (g.snapshot fp now)) p = none := by
  have h := find?_players fp (keyed_entries hg) now p
  rw [AList.lookup] at hs
  rw [hs] at h
  rw [shownEntry, players_succeed]
  exact h

/-- The ids in an answer are those of the players. -/
theorem ids_succeed (hg : Keyed g) :
    (playersOf (succeed "GET_STATE" (g.snapshot fp now))).map (intField · "player_id") =
      g.players.entries.map fun e => some e.1.toInt := by
  rw [players_succeed]
  refine List.ext_getElem (by simp) fun i hi hi' => ?_
  have hi'' : i < g.players.entries.length := by simpa using hi'
  have hkey := keyed_entries hg _ (List.getElem_mem hi'')
  simp [id_playerJson, hkey]

end Players

/-! ## The answers there are -/

/-- `GET_STATE`, served next, may give this answer, and it is `ok`. -/
def StateAnswer (cfg : Config) (fp : Doubles) (w : World) (state : Json) : Prop :=
  ∃ rawJson playerId w', Request.decode rawJson = .getState playerId ∧
    Runs (Call.exec fp) (reply cfg fp rawJson) w state w' ∧ isOk state = true

theorem snapshot_of_responds {fp : Doubles} {unreadable : Prop} {playerId : Option Int32}
    {g g' : GameState} {r : Json} (h : Responds fp unreadable (.getState playerId) g r g') :
    (isOk r = true → ∃ now, r = succeed "GET_STATE" (g.snapshot fp now)) ∧
      (playerId = none → isOk r = true) := by
  cases h with
  | absent | unread => exact ⟨fun hok => (by rw [Request.isOk_errorResponse] at hok; cases hok),
      fun hno => by cases hno⟩
  | state playerId now => exact ⟨fun _ => ⟨now, rfl⟩, fun _ => isOk_succeed _ _⟩

theorem snapshot_of_stateAnswer {cfg : Config} {fp : Doubles} {w : World} {state : Json}
    (h : StateAnswer cfg fp w state) :
    ∃ now, state = succeed "GET_STATE" (w.game.snapshot fp now) := by
  obtain ⟨rawJson, playerId, w', hdecode, hruns, hok⟩ := h
  have h' : Runs (Call.execVia fp id) (reply cfg fp rawJson) w state w' := hruns
  have hresponds := (reply_responds h').1
  rw [hdecode] at hresponds
  exact (snapshot_of_responds hresponds).1 hok

/-- A request for the state that names nobody. -/
def statePayload : Bytes := ascii "\x7b\"action\":\"GET_STATE\"\x7d"

theorem decode_statePayload : Request.decode statePayload = .getState none := by
  decide +kernel

/-- **There always is one.**  A request that names nobody is answered in every state, whatever Redis
does. -/
theorem exists_stateAnswer (cfg : Config) (fp : Doubles) (w : World) :
    ∃ state, StateAnswer cfg fp w state := by
  obtain ⟨state, w', hruns⟩ :=
    Program.exists_runs (Call.exec fp) (reply cfg fp statePayload) w
  have h' : Runs (Call.execVia fp id) (reply cfg fp statePayload) w state w' := hruns
  have hresponds := (reply_responds h').1
  rw [decode_statePayload] at hresponds
  exact ⟨state, statePayload, none, w', decode_statePayload, hruns,
    (snapshot_of_responds hresponds).2 rfl⟩

end Snapshots
end MultiPlayerGame
