import MultiPlayerGame.Results.Elimination
import MultiPlayerGame.Server.Snapshots

/-!
# Answers agree with the state

The handlers build their answers from constants and local variables, not from the players map.
`Agrees` says what a client may conclude from an answer about the next `GET_STATE`: it is read off
the two answers alone.  `answers_agree` says that it is so in every reachable state.

In an answer to `GET_STATE`, `player_count` is an `int`.  It is the number of the players listed as
long as there are fewer than `2 ^ 31`; `exists_miscounted` is a run with more.

## Why it holds

What an answer says was computed by the handler from constants: a player who joins is told the
coordinates 500 and 500 because the handler says so, and not because it has looked.  That these
constants are what `addPlayer` stores is what has to be checked, and it is checked action by action
(`agrees_of_rule`).  For a `MOVE` it is that the handler and the game state clamp to the same map;
for an `ATTACK` that the health in the answer is the one stored, that `eliminated` is there exactly
if the target is gone from the snapshot, and that `total_kills` has grown by one in that case
(`agrees_of_lethal`) and stayed otherwise.

A client reads the snapshot by looking a player up under its `player_id`.  That this finds the
record of the player, and nobody else's, is because every record is kept under its own id in every
reachable state (`Records.keyed_of_reachable`).
-/

namespace MultiPlayerGame
namespace Agreement

open Bytes (ascii)
open Json (obj int)
open Program (Runs Served)
open RequestHandler
open GameState (clamp mapMin mapMax)
open Snapshots

/-- An entry has the same number in a field as the answer. -/
def Same (answer : Json) (key : String) (entry : Json) (key' : String) : Prop :=
  ∃ n, intField answer key = some n ∧ intField entry key' = some n

/-- What the answer to a command says about the next `GET_STATE`, and, of an attack or a `LEAVE`,
about one just before. -/
def Agrees (before answer after : Json) : Command → Prop
  | .join playerId => ∃ e, shownEntry after playerId = some e ∧
      intField answer "player_id" = some playerId.toInt ∧
      ∀ key ∈ ["x", "y", "health", "score"], Same answer key e key
  | .move playerId _ _ => ∃ e, shownEntry after playerId = some e ∧
      intField answer "player_id" = some playerId.toInt ∧
      ∀ key ∈ ["x", "y"], Same answer key e key
  | .attack playerId targetId =>
      intField answer "attacker_id" = some playerId.toInt ∧
      intField answer "target_id" = some targetId.toInt ∧
      (∃ e, shownEntry after playerId = some e ∧ Same answer "attacker_score" e "score") ∧
      match answer.field? (ascii "eliminated") with
      | none => ∃ e n, shownEntry after targetId = some e ∧
          intField answer "target_health" = some n ∧ intField e "health" = some n ∧ 0 < n
      | some _ => intField answer "target_health" = some 0 ∧ shownEntry after targetId = none ∧
          ∃ k, intField before "total_kills" = some k ∧
            intField after "total_kills" = some (k + 1)
  | .chat .. => True
  | .updateScore playerId _ => ∃ e, shownEntry after playerId = some e ∧
      intField answer "player_id" = some playerId.toInt ∧ Same answer "score" e "score"
  | .leave playerId => intField answer "player_id" = some playerId.toInt ∧
      shownEntry after playerId = none ∧
      ∃ e, shownEntry before playerId = some e ∧ Same answer "final_score" e "score"

/-- The players are listed under different ids.  So an entry is found by its id, whatever the order
of the entries is. -/
def Distinct (state : Json) : Prop :=
  ((playersOf state).map (intField · "player_id")).Nodup

/-- The number of the players is that of the entries. -/
def Counted (state : Json) : Prop :=
  intField state "player_count" = some ((playersOf state).length : Int)

section Answers

variable {cfg : Config} {fp : Doubles}

theorem distinct_succeed {g : GameState} (hg : Records.Keyed g) {now : Nat → Int} :
    Distinct (succeed "GET_STATE" (g.snapshot fp now)) := by
  have hkeys : (g.players.entries.map Sigma.fst).Nodup := g.players.nodupKeys
  rw [Distinct, ids_succeed hg, ← Function.comp_def (fun p : Int32 => some p.toInt) Sigma.fst,
    ← List.map_map]
  exact hkeys.map fun p q h => Int32.toInt_inj.mp (Option.some.inj h)

theorem counted_succeed_iff {g : GameState} {now : Nat → Int} :
    Counted (succeed "GET_STATE" (g.snapshot fp now)) ↔ g.players.size < 2 ^ 31 := by
  rw [Counted, count_succeed, players_succeed, List.length_mapIdx, Option.some.injEq]
  exact Elimination.toInt_toInt32_natCast g.players.size

/-- The entry of a player shows how it stands. -/
theorem entry_of_player (fp : Doubles) (now : Nat → Int) {g : GameState} (hg : Records.Keyed g)
    {p : Int32} {st : Standing} (h : g.arena.player p = some st) :
    ∃ e, shownEntry (succeed "GET_STATE" (g.snapshot fp now)) p = some e ∧
      intField e "x" = some st.x.toInt ∧ intField e "y" = some st.y.toInt ∧
      intField e "health" = some st.health.toInt ∧ intField e "score" = some st.score.toInt := by
  rw [GameState.arena_player, Option.map_eq_some_iff] at h
  obtain ⟨s, hs, rfl⟩ := h
  obtain ⟨t, ht⟩ := shownEntry_of_lookup fp now hg hs
  refine ⟨_, ht, ?_, ?_, ?_, ?_⟩ <;>
    simp +decide [intField, GameState.playerJson, int, PlayerState.standing]

theorem no_entry_of_player {g : GameState} (hg : Records.Keyed g) {now : Nat → Int} {p : Int32}
    (h : g.arena.player p = none) :
    shownEntry (succeed "GET_STATE" (g.snapshot fp now)) p = none := by
  rw [GameState.arena_player, Option.map_eq_none_iff] at h
  exact shownEntry_of_absent hg h

theorem intField_attackResponse (playerId targetId : Int32) (result : AttackResult) :
    let r := attackResponse playerId targetId result
    intField r "attacker_id" = some playerId.toInt ∧
      intField r "target_id" = some targetId.toInt ∧
      intField r "target_health" = some result.targetHealthAfter.toInt ∧
      intField r "attacker_score" = some result.attackerScore.toInt ∧
      (r.field? (ascii "eliminated") = none ↔ result.targetEliminated = false) := by
  simp only [attackResponse]
  cases result.targetEliminated with
  | false => simp +decide [intField, int]
  | true => simp +decide [intField, int, Json.field?_set_obj]

/-- The health that a hit leaves is not negative. -/
theorem healthAfter_pos {target : Standing} (h : ¬ Arena.Lethal target) :
    0 < (Arena.healthAfter target).toInt := by
  have hzero : (0 : Int32).toInt = 0 := rfl
  unfold Arena.Lethal at h
  unfold Arena.healthAfter GameState.max at h ⊢
  split
  · rename_i hlt
    rw [Int32.lt_iff_toInt_lt, hzero] at hlt
    exact hlt
  · rename_i hle
    rw [if_neg hle] at h
    exact absurd rfl h

/-- After an attack that was lethal: the target is gone, and there is one more kill. -/
theorem agrees_of_lethal (fp : Doubles) {g g' : GameState} (hg' : Records.Keyed g')
    {targetId : Int32} {target : Standing} (hlethal : Arena.Lethal target)
    (hstruck : g'.arena.player targetId = Arena.struck target)
    (hkills : g'.totalKills = g.totalKills + if Arena.Lethal target then 1 else 0)
    (now now' : Nat → Int) :
    (Arena.healthAfter target).toInt = 0 ∧
      shownEntry (succeed "GET_STATE" (g'.snapshot fp now')) targetId = none ∧
      ∃ k, intField (succeed "GET_STATE" (g.snapshot fp now)) "total_kills" = some k ∧
        intField (succeed "GET_STATE" (g'.snapshot fp now')) "total_kills" = some (k + 1) := by
  have hzero : Arena.healthAfter target = 0 := hlethal
  rw [Arena.struck, if_pos hlethal] at hstruck
  rw [if_pos hlethal] at hkills
  refine ⟨by rw [hzero]; rfl, no_entry_of_player hg' hstruck, _, kills_succeed, ?_⟩
  rw [kills_succeed, hkills]
  rfl

/-- What the answer to an attack says. -/
theorem agrees_of_attack {g g' : GameState} (hg' : Records.Keyed g') {playerId targetId : Int32}
    {attacker target : Standing} (hplayer : g'.arena.player playerId =
      some (Arena.rewarded attacker target))
    (hstruck : g'.arena.player targetId = Arena.struck target)
    (hkills : g'.totalKills = g.totalKills + if Arena.Lethal target then 1 else 0)
    (now now' : Nat → Int) :
    Agrees (succeed "GET_STATE" (g.snapshot fp now))
      (attackResponse playerId targetId ⟨GameState.attackDamage, Arena.healthAfter target,
        (Arena.rewarded attacker target).score, Arena.Lethal target⟩)
      (succeed "GET_STATE" (g'.snapshot fp now')) (.attack playerId targetId) := by
  obtain ⟨hattacker, htarget, hhealth, hscore, heliminated⟩ := intField_attackResponse
    playerId targetId ⟨GameState.attackDamage, Arena.healthAfter target,
      (Arena.rewarded attacker target).score, Arena.Lethal target⟩
  obtain ⟨e, he, -, -, -, hentry⟩ := entry_of_player fp now' hg' hplayer
  refine ⟨hattacker, htarget, ⟨e, he, _, hscore, hentry⟩, ?_⟩
  by_cases hlethal : Arena.Lethal target
  · have hfield : (attackResponse playerId targetId ⟨GameState.attackDamage,
        Arena.healthAfter target, (Arena.rewarded attacker target).score,
        Arena.Lethal target⟩).field? (ascii "eliminated") ≠ none := fun hno => by
      have hno' := heliminated.mp hno
      simp [hlethal] at hno'
    split
    · exact absurd ‹_› hfield
    · obtain ⟨hzero, hgone, hmore⟩ := agrees_of_lethal fp hg' hlethal hstruck hkills now now'
      exact ⟨hhealth.trans (congrArg some hzero), hgone, hmore⟩
  · rw [heliminated.mpr (decide_eq_false hlethal)]
    rw [Arena.struck, if_neg hlethal] at hstruck
    obtain ⟨e, he, -, -, hentry, -⟩ := entry_of_player fp now' hg' hstruck
    exact ⟨e, _, he, hhealth, hentry, healthAfter_pos hlethal⟩

/-- **What the answer to a command says is so in the state it leaves.**  The answers are made of
constants and of what the deciding step has returned, and each number in them is compared with the
record that the step has left. -/
theorem agrees_of_rule {c : Command} {g g' : GameState} {data : Bytes} {r : Json}
    (hg : Records.Keyed g) (hg' : Records.Keyed g')
    (hrule : c.rule g.arena = .ok ((data, r), g'.arena)) (now now' : Nat → Int) :
    Agrees (succeed "GET_STATE" (g.snapshot fp now)) r
      (succeed "GET_STATE" (g'.snapshot fp now')) c := by
  generalize hafter : g'.arena = a' at hrule
  cases Command.carriedOut_of_rule hrule with
  | join playerId absent =>
    have hplayer : g'.arena.player playerId = some .initial := by
      rw [hafter]
      exact Function.update_self ..
    obtain ⟨e, he, hx, hy, hhealth, hscore⟩ := entry_of_player fp now' hg' hplayer
    refine ⟨e, he, by simp +decide [intField, joinResponse, int], fun key hkey => ?_⟩
    simp only [List.mem_cons, List.not_mem_nil, or_false] at hkey
    rcases hkey with rfl | rfl | rfl | rfl
    · exact ⟨_, by simp +decide [intField, joinResponse, int], hx⟩
    · exact ⟨_, by simp +decide [intField, joinResponse, int], hy⟩
    · exact ⟨_, by simp +decide [intField, joinResponse, int, GameState.maxHealth], hhealth⟩
    · exact ⟨_, by simp +decide [intField, joinResponse, int], hscore⟩
  | move playerId x y s present =>
    have hplayer : g'.arena.player playerId =
        some { s with x := clamp x mapMin mapMax, y := clamp y mapMin mapMax } := by
      rw [hafter]
      exact Function.update_self ..
    obtain ⟨e, he, hx, hy, -, -⟩ := entry_of_player fp now' hg' hplayer
    refine ⟨e, he, by simp +decide [intField, moveResponse, int], fun key hkey => ?_⟩
    simp only [List.mem_cons, List.not_mem_nil, or_false] at hkey
    rcases hkey with rfl | rfl
    · exact ⟨_, by simp +decide [intField, moveResponse, int], hx⟩
    · exact ⟨_, by simp +decide [intField, moveResponse, int], hy⟩
  | attack playerId targetId attacker target ne present targetPresent =>
    have hplayer : g'.arena.player playerId = some (Arena.rewarded attacker target) := by
      rw [hafter]
      simp [Function.update_of_ne ne]
    have hstruck : g'.arena.player targetId = Arena.struck target := by
      rw [hafter]
      simp
    exact agrees_of_attack hg' hplayer hstruck (congrArg Arena.totalKills hafter) now now'
  | chat playerId message _ => trivial
  | updateScore playerId score s present =>
    have hplayer : g'.arena.player playerId = some { s with score } := by
      rw [hafter]
      exact Function.update_self ..
    obtain ⟨e, he, -, -, -, hscore⟩ := entry_of_player fp now' hg' hplayer
    exact ⟨e, he, by simp +decide [intField, updateScoreResponse, int], _,
      by simp +decide [intField, updateScoreResponse, int], hscore⟩
  | leave playerId s present =>
    have hplayer : g'.arena.player playerId = none := by
      rw [hafter, Arena.player_finishIfEmpty]
      exact Function.update_self ..
    obtain ⟨e, he, -, -, -, hscore⟩ := entry_of_player fp now hg present
    exact ⟨by simp +decide [intField, leaveResponse, int], no_entry_of_player hg' hplayer, e, he, _,
      by simp +decide [intField, leaveResponse, int], hscore⟩

/-- **Answers agree with the state.**  In every reachable state: the players in an answer to
`GET_STATE` have different ids, and `player_count` is their number if it is below `2 ^ 31`; and what
the answer to a command that was carried out says is what the next `GET_STATE` shows. -/
theorem answers_agree {w : World} (hw : w.Reachable cfg fp) :
    (∀ state, StateAnswer cfg fp w state →
      Distinct state ∧ ((playersOf state).length < 2 ^ 31 → Counted state)) ∧
    ∀ {rawJson : Bytes} {r : Json} {w' : World},
      Runs (Call.exec fp) (reply cfg fp rawJson) w r w' → isOk r = true →
      ∀ c, Request.decode rawJson = .command c → ∀ before after, StateAnswer cfg fp w before →
        StateAnswer cfg fp w' after → Agrees before r after c := by
  have hg := Records.keyed_of_reachable hw
  constructor
  · intro state hstate
    obtain ⟨now, rfl⟩ := snapshot_of_stateAnswer hstate
    refine ⟨distinct_succeed hg, fun hfew => counted_succeed_iff.mpr ?_⟩
    rwa [players_succeed, List.length_mapIdx] at hfew
  · intro rawJson r w' hruns hok c hdecode before after hbefore hafter
    obtain ⟨now, rfl⟩ := snapshot_of_stateAnswer hbefore
    obtain ⟨now', rfl⟩ := snapshot_of_stateAnswer hafter
    have h' : Runs (Call.execVia fp id) (reply cfg fp rawJson) w r w' := hruns
    have hresponds := (reply_responds h').1
    have hg' := Records.keyed_of_reachable (hw.served (Served.one hruns))
    rw [hdecode] at hresponds
    generalize w.game = g at hg hresponds ⊢
    generalize w'.game = g' at hg' hresponds ⊢
    cases hresponds with
    | rejected =>
      rw [Request.isOk_errorResponse] at hok
      cases hok
    | done _ now₀ _ g₁ data _ timestamp happly =>
      have hrule := c.arena_apply now₀ g
      rw [happly] at hrule
      exact agrees_of_rule hg hg' hrule.symm now now'

/-- A player has joined, and the state shows it. -/
theorem answers_agree_join : ∃ r w state e, isOk r = true ∧
    Served (reply ⟨false, false⟩ .zero) (Call.exec .zero) .started [(joinZero, r)] w ∧
    StateAnswer ⟨false, false⟩ .zero w state ∧ shownEntry state 0 = some e ∧
    Same r "health" e "health" := by
  obtain ⟨r, w, hserved, hok, -, -⟩ := served_joinZero
  obtain ⟨before, hbefore⟩ := exists_stateAnswer ⟨false, false⟩ .zero .started
  obtain ⟨after, hafter⟩ := exists_stateAnswer ⟨false, false⟩ .zero w
  have hserved' : Served (reply ⟨false, false⟩ .zero) (Call.exec .zero) .started
      ([] ++ [(joinZero, r)]) w := hserved
  obtain ⟨t, hnil, hlast⟩ := hserved'.snoc_inv
  rw [hnil.nil_inv] at hlast
  have hdecode : Request.decode joinZero = .command (.join 0) := by decide +kernel
  obtain ⟨e, he, -, hsame⟩ := (answers_agree World.started_fresh.reachable).2 hlast hok _ hdecode
    before after hbefore hafter
  exact ⟨r, w, after, e, hok, hserved, hafter, he, hsame "health" (by simp)⟩

end Answers

/-! ## Too many players to count -/

def playerNo (i : ℕ) : Int32 := Int32.ofInt i

/-- The first `n` ids join, one after another. -/
def crowd (n : ℕ) : List Bytes := (List.range n).map fun i => joinPayload (playerNo i)

theorem exists_crowd (cfg : Config) (fp : Doubles) (n : ℕ) : ∃ w history,
    Served (reply cfg fp) (Call.exec fp) .started history w ∧ history.map Prod.fst = crowd n ∧
      ∀ i < n, w.game.arena.player (playerNo i) ≠ none := by
  induction n with
  | zero => exact ⟨.started, [], .nil, rfl, fun i hi => absurd hi (Nat.not_lt_zero i)⟩
  | succ n ih =>
    obtain ⟨w, history, hserved, hcrowd, hpresent⟩ := ih
    obtain ⟨r, w', hlast⟩ := Program.exists_runs (Call.exec fp)
      (reply cfg fp (joinPayload (playerNo n))) w
    obtain ⟨hn, hothers⟩ := present_of_join hlast
    refine ⟨w', _, hserved.snoc hlast, ?_, fun i hi => ?_⟩
    · rw [List.map_append, hcrowd, crowd, crowd, List.range_succ, List.map_append]
      rfl
    · rcases Nat.lt_succ_iff_lt_or_eq.mp hi with hi | rfl
      · exact hothers _ (hpresent i hi)
      · exact hn

/-- As long as the ids are different, that many players are in the game. -/
theorem le_size_of_present {g : GameState} {n : ℕ} (hn : n ≤ 2 ^ 31)
    (hpresent : ∀ i < n, g.arena.player (playerNo i) ≠ none) : n ≤ g.players.size := by
  have hids : ((List.range n).map playerNo).Nodup := by
    refine List.Nodup.map_on (fun i hi j hj hij => ?_) List.nodup_range
    have hi' := List.mem_range.mp hi
    have hj' := List.mem_range.mp hj
    have h := congrArg Int32.toInt hij
    rw [playerNo, playerNo, Int32.toInt_ofInt_of_le (by omega) (by omega),
      Int32.toInt_ofInt_of_le (by omega) (by omega)] at h
    exact Int.ofNat_inj.mp h
  have hsub : (List.range n).map playerNo ⊆ g.players.keys := by
    intro p hp
    obtain ⟨i, hi, rfl⟩ := List.mem_map.mp hp
    have hsome := hpresent i (List.mem_range.mp hi)
    rw [GameState.arena_player, Ne, Option.map_eq_none_iff, AList.lookup_eq_none, not_not] at hsome
    exact AList.mem_keys.mp hsome
  have hle := (List.subperm_of_subset hids hsub).length_le
  have hkeys : g.players.keys.length = g.players.size := List.length_map _
  rwa [List.length_map, List.length_range, hkeys] at hle

/-- **When `2 ^ 31` players have joined, they are miscounted.**  Their number is cast to an `int`
for the answer and comes out negative. -/
theorem exists_miscounted : ∃ w history state,
    Served (reply ⟨false, false⟩ .zero) (Call.exec .zero) .started history w ∧
    history.map Prod.fst = crowd (2 ^ 31) ∧ StateAnswer ⟨false, false⟩ .zero w state ∧
    ¬ Counted state := by
  obtain ⟨w, history, hserved, hcrowd, hpresent⟩ := exists_crowd ⟨false, false⟩ .zero (2 ^ 31)
  obtain ⟨state, hstate⟩ := exists_stateAnswer ⟨false, false⟩ .zero w
  refine ⟨w, history, state, hserved, hcrowd, hstate, ?_⟩
  obtain ⟨now, rfl⟩ := snapshot_of_stateAnswer hstate
  rw [counted_succeed_iff, Nat.not_lt]
  exact le_size_of_present (Nat.le_refl _) hpresent

end Agreement
end MultiPlayerGame
