import MultiPlayerGame.Results.Elimination

/-!
# Do the kills reach the database?

The game state counts the kills of a player, the table `players` has a column for them, and
`upsertPlayer` never lowers it.  But `removePlayer` hands out only the score, and both handlers that
write the row write 0 kills.  So the column stays what it was when the server was started: a count
reaches it only if it was there already (`covered_reply`), and that decides which players leave with
their kills kept (`stored_kills_iff`).

## Why the condition is about the start

The handlers of `JOIN` and `LEAVE` pass 0 for the number of kills, and the statement takes the
greater one of the stored number and the new one.  So the column is never raised, except from
nothing to 0 when a row is made.  What a row has at any moment it had at the start, or it is 0.
Hence a player's kills are in its row afterwards exactly if they were there at the start already, or
if there are none, and this is a condition on the requests and the rows of the beginning.
-/

namespace MultiPlayerGame
namespace KillCount

open Bytes (ascii)
open Program (Runs Served ServedThrough Turn)
open RequestHandler
open Elimination (reply_players)

/-- The row of the player has at least so many kills. -/
def Stored (rows : KeyedMap Int32 PlayerRow) (p : Int32) (kills : Int32) : Prop :=
  ∃ row, rows.lookup p = some row ∧ kills ≤ row.kills

/-- A row of the player would have at least so many kills if 0 kills were written to it. -/
def Covered (rows : KeyedMap Int32 PlayerRow) (p : Int32) (kills : Int32) : Prop :=
  kills ≤ 0 ∨ Stored rows p kills

/-- A player who is in the game and leaves has its kills in its row afterwards. -/
def KillsKept (w : World) (rawJson : Bytes) (w' : World) : Prop :=
  ∀ p st, Request.decode rawJson = .command (.leave p) → w.game.players.lookup p = some st →
    Stored w'.db.players p st.kills

/-- A player who is in the game and leaves had no more kills than `rows` have for it. -/
def KillsCovered (rows : KeyedMap Int32 PlayerRow) (w : World) (rawJson : Bytes) : Prop :=
  ∀ p st, Request.decode rawJson = .command (.leave p) → w.game.players.lookup p = some st →
    Covered rows p st.kills

instance (rows : KeyedMap Int32 PlayerRow) (p kills : Int32) : Decidable (Stored rows p kills) :=
  decidable_of_iff ((rows.lookup p).any (fun row => kills ≤ row.kills) = true) <| by
    simp [Stored, Option.any_eq_true]

instance (rows : KeyedMap Int32 PlayerRow) (p kills : Int32) : Decidable (Covered rows p kills) :=
  inferInstanceAs (Decidable (_ ∨ _))

instance (rows : KeyedMap Int32 PlayerRow) (w : World) (rawJson : Bytes) :
    Decidable (KillsCovered rows w rawJson) :=
  decidable_of_iff ((match Request.decode rawJson with
    | .command (.leave p) => (w.game.players.lookup p).all fun st => Covered rows p st.kills
    | _ => true) = true) <| by
    unfold KillsCovered
    split
    · rename_i p hdecode
      simp only [hdecode, Option.all_eq_true, decide_eq_true_eq, Request.command.injEq,
        Command.leave.injEq]
      refine ⟨fun h q st hq hst => ?_, fun h st hst => h p st rfl hst⟩
      subst hq
      exact h st hst
    · rename_i hno
      exact iff_of_true rfl fun p st hdecode => absurd hdecode (hno p)

/-! ## Writing 0 kills -/

section Upsert

variable {rows : KeyedMap Int32 PlayerRow} {p q : Int32} {username : Bytes} {score kills : Int32}

theorem le_greatest_iff (a b : Int32) : kills ≤ Database.greatest a b ↔ kills ≤ a ∨ kills ≤ b := by
  unfold Database.greatest
  split
  · rename_i hlt
    exact ⟨Or.inr, fun h => h.elim (fun h => Int32.le_trans h (Int32.le_of_lt hlt)) id⟩
  · rename_i hle
    exact ⟨Or.inl, fun h => h.elim id fun h => Int32.le_trans h (Int32.not_lt.mp hle)⟩

/-- **The row afterwards.**  The greater one of the number that was there and the one that is
written. -/
theorem stored_upserted :
    Stored (upserted p username score 0 rows) p kills ↔ Covered rows p kills := by
  unfold upserted Covered Stored
  cases hrow : rows.lookup p with
  | none => simp
  | some row =>
    simp [KeyedMap.lookup_replace (KeyedMap.mem_of_lookup hrow), le_greatest_iff, or_comm]

theorem lookup_upserted_ne (hq : q ≠ p) :
    (upserted p username score 0 rows).lookup q = rows.lookup q := by
  unfold upserted
  cases rows.lookup p with
  | none => exact AList.lookup_insert_ne hq
  | some row => exact KeyedMap.lookup_replace_ne hq _

/-- **Writing 0 kills covers nobody who was not covered.**  The row has the number that it had, or 0
if it is new. -/
theorem covered_upserted :
    Covered (upserted p username score 0 rows) q kills ↔ Covered rows q kills := by
  by_cases hq : q = p
  · subst hq
    rw [Covered, stored_upserted, Covered]
    exact ⟨fun h => h.elim Or.inl id, Or.inr⟩
  · rw [Covered, Covered, Stored, Stored, lookup_upserted_ne hq]

end Upsert

/-! ## Requests -/

section Requests

variable {ε : Type} {env : ε → Env} {cfg : Config} {fp : Doubles} {w w' : World} {rawJson : Bytes}
  {r : Json}

theorem covered_rowsAfter (c : Command) (score : Int32) (rows : KeyedMap Int32 PlayerRow)
    (p kills : Int32) : Covered (c.rowsAfter score rows) p kills ↔ Covered rows p kills := by
  cases c with
  | join | leave => exact covered_upserted
  | _ => exact Iff.rfl

/-- **No request brings kills into the database.**  The only commands that write rows are `JOIN` and
`LEAVE`, and both write 0. -/
theorem covered_reply (hdb : cfg.hasDb = true) (hsql : ∀ e, (env e).sql.Works)
    (h : Runs (Call.execVia fp env) (reply cfg fp rawJson) w r w') (p kills : Int32) :
    Covered w'.db.players p kills ↔ Covered w.db.players p kills := by
  have hrows : ∀ v : World, v.db.players = v.copies.rows := fun _ => rfl
  rw [hrows, hrows]
  rcases reply_players h with ⟨-, hcopies, -⟩ |
    ⟨c, x, data, w₁, w₂, -, -, -, houtcome, -, hcopies₁, heffects, hcopies₂⟩
  · rw [hcopies]
  · obtain ⟨score, hafter, -⟩ := effects_rows hdb hsql houtcome heffects
    rw [hcopies₂, hafter, hcopies₁]
    exact covered_rowsAfter c score _ p kills

/-- **One request.**  A player who leaves has its kills in its row afterwards exactly if they were
covered before. -/
theorem kills_step (hdb : cfg.hasDb = true) (hsql : ∀ e, (env e).sql.Works)
    (h : Runs (Call.execVia fp env) (reply cfg fp rawJson) w r w') :
    KillsKept w rawJson w' ↔ KillsCovered w.db.players w rawJson := by
  have hleave : ∀ p st, Request.decode rawJson = .command (.leave p) →
      w.game.players.lookup p = some st →
      (Stored w'.db.players p st.kills ↔ Covered w.db.players p st.kills) := by
    intro p st hdecode hst
    have hpossible : ∃ players', (Command.leave p).Players w.game.players players' :=
      ⟨_, st, hst, rfl⟩
    obtain ⟨score, hafter⟩ := Elimination.rows_of_reply hdb hsql hdecode hpossible h
    rw [hafter]
    exact stored_upserted
  constructor
  · exact fun hkept p st hdecode hst => (hleave p st hdecode hst).mp (hkept p st hdecode hst)
  · exact fun hcovered p st hdecode hst =>
      (hleave p st hdecode hst).mpr (hcovered p st hdecode hst)

/-- **In a run every player who leaves has its kills in its row if and only if no player who leaves
has more kills than its row had at the start of the run**, or than 0. -/
theorem stored_kills_iff (hdb : cfg.hasDb = true) (hsql : ∀ e, (env e).sql.Works) {w₀ : World}
    {turns : List (Turn World Bytes Json)}
    (h : ServedThrough (reply cfg fp) (Call.execVia fp env) w₀ turns w) :
    (∀ e ∈ turns, KillsKept e.before e.request e.after) ↔
      ∀ e ∈ turns, KillsCovered w₀.db.players e.before e.request := by
  let Inv : World → Prop := fun w =>
    ∀ p kills, Covered w.db.players p kills ↔ Covered w₀.db.players p kills
  have hinv : ∀ rawJson r w w', Inv w →
      Runs (Call.execVia fp env) (reply cfg fp rawJson) w r w' → Inv w' :=
    fun rawJson r w w' hw last p kills =>
      (covered_reply hdb hsql last p kills).trans (hw p kills)
  have hstep : ∀ rawJson r w w', Inv w →
      Runs (Call.execVia fp env) (reply cfg fp rawJson) w r w' →
      (KillsKept w rawJson w' ↔ KillsCovered w₀.db.players w rawJson) := by
    intro rawJson r w w' hw last
    rw [kills_step hdb hsql last]
    exact forall_congr' fun p => forall_congr' fun st => imp_congr_right fun _ =>
      imp_congr_right fun _ => hw p st.kills
  exact h.iff_of_step hstep (fun rawJson r w w' hw last _ => hinv rawJson r w w' hw last)
    fun p kills => Iff.rfl

end Requests

/-! ## A player leaves after a kill -/

section Duel

open Elimination.Duel (working working_works joinTarget attack)

def leaveZero : Bytes := ascii "\x7b\"action\":\"LEAVE\",\"player_id\":0\x7d"

theorem decode_leaveZero : Request.decode leaveZero = .command (.leave 0) := by decide +kernel

/-- MySQL has a row with one kill for player 0. -/
def veteran : World :=
  { World.started with db := { players := AList.insert 0 ⟨ascii "player_0", 0, 0, 1⟩ ∅ } }

/-- Player 0 kills player 1 and leaves. -/
def kill : List Bytes := [joinZero, joinTarget] ++ List.replicate 4 attack ++ [leaveZero]

/-- The kill is kept if the row has one already. -/
theorem stored_kills_iff_kill : ∃ turns w, turns.map Turn.request = kill ∧
    ServedThrough (reply ⟨true, true⟩ .zero) (Call.execVia .zero working) veteran turns w ∧
    w.game.totalKills = 1 ∧ ∀ e ∈ turns, KillsKept e.before e.request e.after := by
  have h := Program.servedThrough_serve (reply ⟨true, true⟩ .zero) (Call.execVia .zero working) ()
    kill veteran
  exact ⟨_, _, by decide +kernel, h, by decide +kernel,
    (stored_kills_iff rfl working_works h).mpr (by decide +kernel)⟩

/-- **Player 0 kills player 1 and leaves, and its row says 0 kills.**  The row was made by its
`JOIN`, and its `LEAVE` writes 0 kills again. -/
theorem duel_kills : ∃ history w r w', Served (reply ⟨true, true⟩ .zero)
      (Call.execVia .zero working) .started history w ∧
    Runs (Call.execVia .zero working) (reply ⟨true, true⟩ .zero leaveZero) w r w' ∧
    isOk r = true ∧ ¬ KillsKept w leaveZero w' := by
  let requests := [joinZero, joinTarget, attack, attack, attack, attack]
  let w := (Program.serve (reply ⟨true, true⟩ .zero) (fun c => c.execVia .zero working ()) requests
    .started).2
  have hserved := Program.served_serve (reply ⟨true, true⟩ .zero) (Call.execVia .zero working) ()
    requests .started
  have hlast := Program.runs_run (Call.execVia .zero working) ()
    (reply ⟨true, true⟩ .zero leaveZero) w
  refine ⟨_, w, _, _, hserved, hlast, by decide +kernel, fun hkept => ?_⟩
  have hkills : (w.game.players.lookup 0).map PlayerState.kills = some 1 := by decide +kernel
  have hrow : (((reply ⟨true, true⟩ .zero leaveZero).run (fun c => c.execVia .zero working ()) w
    ).2.db.players.lookup 0).map PlayerRow.kills = some 0 := by decide +kernel
  obtain ⟨st, hst, hone⟩ := Option.map_eq_some_iff.mp hkills
  obtain ⟨row, hlookup, hle⟩ := hkept 0 st decode_leaveZero hst
  rw [hlookup] at hrow
  have hzero : row.kills = 0 := Option.some.inj hrow
  rw [hone, hzero] at hle
  exact absurd hle (by decide)

end Duel

end KillCount
end MultiPlayerGame
