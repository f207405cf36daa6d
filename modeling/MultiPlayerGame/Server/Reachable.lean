import MultiPlayerGame.Json.RoundTrip
import MultiPlayerGame.Server.Deeds

/-!
# Reachable states

A state is reachable if a server that has just been started can be brought into it by requests
served one after another.  What is shown here is that there are enough of them: players with any
ids can be in the game together (`exists_reachable_present`).  They are brought in by `JOIN`
requests, whose payloads are written with the serializer and read back with the parser.

## Why they are needed

A statement that something holds exactly under a condition needs, for its other half, a state in
which it fails.  Such a state has to be one that the server can be in.  `exists_reachable_present`
provides them:  whatever the ids are, there is a reachable state with these players in the game.  It
is an induction on the list of ids, in which the next player is brought in by a `JOIN` or is there
already.
-/

namespace MultiPlayerGame

open Bytes (ascii)
open Program (Runs Served)
open RequestHandler

/-- A state that requests can lead to.  What the network, Redis, MySQL and the clocks do on the way
is left open. -/
def World.Reachable (cfg : Config) (fp : Doubles) (w : World) : Prop :=
  ∃ w₀ history, w₀.Fresh ∧ Served (reply cfg fp) (Call.exec fp) w₀ history w

theorem World.Fresh.reachable {cfg : Config} {fp : Doubles} {w : World} (hw : w.Fresh) :
    w.Reachable cfg fp :=
  ⟨w, [], hw, .nil⟩

theorem World.Reachable.served {cfg : Config} {fp : Doubles} {w w' : World}
    {history : List (Bytes × Json)} (hw : w.Reachable cfg fp)
    (h : Served (reply cfg fp) (Call.exec fp) w history w') : w'.Reachable cfg fp := by
  obtain ⟨w₀, past, hfresh, hpast⟩ := hw
  exact ⟨w₀, past ++ history, hfresh, hpast.trans h⟩

/-- The fields of a request to join. -/
def joinFields (playerId : Int32) : List (Bytes × Json) :=
  [(ascii "action", .string (ascii "JOIN")), (ascii "player_id", .int playerId)]

/-- A request to join. -/
def joinPayload (playerId : Int32) : Bytes := (Json.object (joinFields playerId)).text

theorem decode_joinPayload (playerId : Int32) :
    Request.decode (joinPayload playerId) = .command (.join playerId) := by
  have hparse : Parser.parse (joinPayload playerId) = some (.ofFields (joinFields playerId)) := by
    refine Parser.parse_text_object fun f hf => ?_
    rcases List.mem_cons.mp hf with rfl | hf
    · exact ⟨by decide, by decide, rfl⟩
    rw [List.mem_singleton.mp hf]
    have hkey : Utf8.Valid (ascii "player_id") := by decide
    exact ⟨hkey, Json.plain_int playerId, rfl⟩
  have haction : Request.action? (.ofFields (joinFields playerId)) = some .join := rfl
  rw [Request.decode_of_action hparse haction]
  have hread : requireInt (.ofFields (joinFields playerId)) "player_id" =
      .ok (Json.toInt32 playerId.toInt) := rfl
  rw [Request.ofAction, hread, Json.toInt32, Int32.ofInt_toInt]
  rfl

/-- After a request to join, the player is in the game, and so is whoever was before. -/
theorem present_of_join {cfg : Config} {fp : Doubles} {w w' : World} {r : Json} {playerId : Int32}
    (h : Runs (Call.exec fp) (reply cfg fp (joinPayload playerId)) w r w') :
    w'.game.arena.player playerId ≠ none ∧
      ∀ q, w.game.arena.player q ≠ none → w'.game.arena.player q ≠ none := by
  have h' : Runs (Call.execVia fp id) (reply cfg fp (joinPayload playerId)) w r w' := h
  have hresponds := (reply_responds h').1
  rw [decode_joinPayload] at hresponds
  by_cases hp : w.game.arena.player playerId = none
  · have hrule : ∃ out a, (Command.join playerId).rule w.game.arena = .ok (out, a) ∧
        a.player = Function.update w.game.arena.player playerId (some .initial) := by
      rw [Command.rule, Arena.addPlayer, if_neg (not_not.mpr hp)]
      exact ⟨_, _, rfl, rfl⟩
    obtain ⟨out, a, hrule, ha⟩ := hrule
    obtain ⟨-, -, harena⟩ := responds_of_rule hrule hresponds
    rw [harena, ha]
    refine ⟨by simp, fun q hq => ?_⟩
    by_cases hqp : q = playerId
    · simp [hqp]
    · simpa [hqp] using hq
  · have hrule : (Command.join playerId).rule w.game.arena =
        .error (GameState.alreadyInGame playerId) := by
      rw [Command.rule, Arena.addPlayer, if_pos hp]
      rfl
    obtain ⟨-, hsame⟩ := responds_of_refusal hrule hresponds
    rw [hsame]
    exact ⟨hp, fun q hq => hq⟩

/-- **Any players can be in the game together.**  By induction on their ids, one `JOIN` for each
that is not there yet. -/
theorem exists_reachable_present (cfg : Config) (fp : Doubles) (ids : List Int32) :
    ∃ w : World, w.Reachable cfg fp ∧ ∀ p ∈ ids, w.game.arena.player p ≠ none := by
  induction ids with
  | nil => exact ⟨.started, World.started_fresh.reachable, fun p hp => by cases hp⟩
  | cons p ids ih =>
    obtain ⟨w, hw, hpresent⟩ := ih
    obtain ⟨r, w', hlast⟩ := Program.exists_runs (Call.exec fp) (reply cfg fp (joinPayload p)) w
    obtain ⟨hp, hothers⟩ := present_of_join hlast
    refine ⟨w', hw.served (.one hlast), fun q hq => ?_⟩
    rcases List.mem_cons.mp hq with rfl | hq
    · exact hp
    · exact hothers q (hpresent q hq)

end MultiPlayerGame
